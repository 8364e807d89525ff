import RuleAdvisor.Proofs.Fuzzy.Joining

/-!
Inference with a well-formed rule base of which every input is supplied. It succeeds, whatever the
readings are, and all that it computes on the way stays within its bounds.
-/

namespace RuleAdvisor.Fuzzy

open Exact

/-- What is computed with a rule base stays within its bounds. -/
structure Inference.Sound (inference : Inference Exact) (base : RuleBase Exact) : Prop where
  /-- Under the name of every input stand a value in its domain and the degrees of its record. -/
  inputs : ∀ v ∈ base.inputs, ∃ value degrees,
    inference.inputs.values.get? v.name = some value
      ∧ inference.inputs.degrees.get? v.name = some degrees
      ∧ v.domain.least ≤ value ∧ value ≤ v.domain.greatest
      ∧ degrees.keys = v.recorded
  degrees : ∀ name degrees, inference.inputs.degrees.get? name = some degrees →
    ∀ category degree, degrees.get? category = some degree → IsDegree degree
  /-- The degree of any rational in any category of the rule base. -/
  categories : ∀ v ∈ base.output.toVariable :: base.inputs, ∀ entry ∈ v.categories.entries,
    ∀ x : Rat, IsDegree (entry.2.degree (rat x))
  rules : inference.activations.map Activation.ruleId = base.rules.map Rule.id
  strengths : List.Forall₂ (fun rule activation =>
      (rule.Readable → IsDegree activation.strength)
        ∧ (¬ rule.Readable → activation.strength = nan))
    base.rules inference.activations
  curve : ∀ sample ∈ inference.curve, IsDegree sample.degree
  value_ge : base.output.domain.least ≤ inference.value
  value_le : inference.value
    ≤ base.output.domain.greatest + tolerance * base.output.resolution

theorem Inference.Sound.forall_isDegree_iff {inference : Inference Exact} {base : RuleBase Exact}
    (sound : inference.Sound base) :
    (∀ activation ∈ inference.activations, IsDegree activation.strength)
      ↔ ∀ rule ∈ base.rules, rule.Readable := by
  constructor
  · intro degrees rule member
    obtain ⟨activation, given, -, lost⟩ := exists_mem_of_forall₂ sound.strengths member
    by_contra unreadable
    exact (degrees activation given).ne_nan (lost unreadable)
  · intro readable activation given
    obtain ⟨rule, member, kept, -⟩ := exists_of_mem_forall₂ sound.strengths given
    exact kept (readable rule member)

/-- Some conclusion that fired lies above 0 at a position that is sampled, and another position is
sampled beside it. -/
def Inference.Sees (inference : Inference Exact) (output : Output Exact) : Prop :=
  2 ≤ inference.curve.length ∧ ∃ activation ∈ inference.activations,
    ∃ x ∈ inference.curve.positions, output.Raises activation x

theorem Curve.isSome_centroid?_iff_raised {curve : Curve Exact} {output : Output Exact}
    {activations : List (Activation Exact)} {least greatest : Rat}
    (samples : ∀ sample ∈ curve, sample.Sound least greatest) (apart : Apart curve.positions)
    (raised : ∀ sample ∈ curve, 0 < sample.degree
      ↔ ∃ activation ∈ activations, output.Raises activation sample.position) :
    curve.centroid?.isSome ↔ 2 ≤ curve.length ∧ ∃ activation ∈ activations,
      ∃ x ∈ curve.positions, output.Raises activation x := by
  rw [isSome_centroid?_iff samples apart]
  apply and_congr_right
  intro _
  constructor
  · rintro ⟨sample, member, above⟩
    obtain ⟨activation, given, raises⟩ := (raised sample member).mp above
    exact ⟨activation, given, sample.position, List.mem_map_of_mem member, raises⟩
  · rintro ⟨activation, given, x, position, raises⟩
    obtain ⟨sample, member, rfl⟩ := List.mem_map.mp position
    exact ⟨sample, member, (raised sample member).mpr ⟨activation, given, raises⟩⟩

theorem RuleBase.infer_eq {α : Type} [Number α] {base : RuleBase α} {values : Record α}
    {inputs : Fuzzified α} {activations : List (Activation α)} {curve : Curve α}
    (fuzzified : base.fuzzify values = .ok inputs)
    (evaluated : activationsOf base.rules inputs.degrees = .ok activations)
    (joined : base.output.curveOf activations = .ok curve) :
    base.infer values = .ok ⟨curve.centroid?.getD base.output.domain.least,
      curve.centroid?.isNone, inputs, activations, curve⟩ := by
  simp only [infer, fuzzified, bind, Except.bind, evaluated, joined]
  rfl

namespace RuleBase.WellFormed

variable {base : RuleBase Exact} (valid : base.WellFormed) {values : Record Exact}
  (supplied : ∀ v ∈ base.inputs, ∃ value, values.get? v.name = some value)

include valid supplied

/-- Every inference succeeds and is sound, and it has a centroid exactly if it sees a conclusion
that fired. -/
theorem exists_inference : ∃ inference, base.infer values = .ok inference
    ∧ inference.Sound base
    ∧ inference.value = inference.curve.centroid?.getD base.output.domain.least
    ∧ inference.fallback = inference.curve.centroid?.isNone
    ∧ base.output.Places inference.activations inference.curve.positions
    ∧ (inference.curve.centroid?.isSome ↔ inference.Sees base.output) := by
  obtain ⟨inputs, fuzzified, read, degrees⟩ := valid.exists_fuzzify supplied
  obtain ⟨activations, evaluated, rules, sound⟩ := valid.exists_activations read
  obtain ⟨least, greatest, step, ends, resolution, ordered, positive, onGrid⟩ :=
    valid.output.drawable.exists_grid
  obtain ⟨curve, joined, samples, places, raised⟩ := valid.output.drawable.exists_curve sound onGrid
  -- Both the centroid and the value it falls back on lie within the positions sampled.
  have decided : Within least (greatest + nearness * step)
      (curve.centroid?.getD base.output.domain.least) := by
    cases found : curve.centroid? with
    | none =>
        rw [ends]
        have share := mul_pos nearness_pos positive
        exact (within_rat _ _ _).mpr ⟨le_refl least, by linarith⟩
    | some x => exact Curve.centroid?_within samples found
  obtain ⟨q, value, above, below⟩ := decided
  simp only [ends] at value
  refine ⟨_, infer_eq fuzzified evaluated joined, ?_, rfl, rfl, places, ?_⟩
  · constructor
    case inputs =>
      intro v member
      obtain ⟨value, _, underValue, underDegrees⟩ := read v member
      obtain ⟨above, below⟩ := (valid.inputs v member).read_within value
      exact ⟨_, _, underValue, underDegrees, above, below, v.keys_degreesAt _⟩
    case degrees => exact degrees
    case categories =>
      intro v member entry listed x
      rcases List.mem_cons.mp member with rfl | input
      · exact (valid.output.variableWellFormed.shapes entry listed).isDegree x
      · exact ((valid.inputs v input).shapes entry listed).isDegree x
    case rules => exact rules
    case strengths =>
      have pairs := (mapM_eq_ok_iff _ _ _).mp evaluated
      refine ((List.forall₂_and_left _ _).mpr ⟨fun rule member => member, pairs⟩).imp ?_
      rintro rule activation ⟨member, fires⟩
      obtain ⟨strength, found, rfl⟩ := Rule.activation_eq_ok_iff.mp fires
      exact valid.strength_graded read member found
    case curve =>
      intro sample member
      exact (samples sample member).2
    case value_ge => simpa only [value, ends, rat_le] using above
    case value_le =>
      simpa only [value, ends, resolution, tolerance_eq, rat_mul, rat_add, rat_le] using below
  · exact Curve.isSome_centroid?_iff_raised samples places.apart raised

theorem infer_answering (byZero : Exact → Exact) :
    @RuleBase.infer Exact (answering byZero) base values = base.infer values := by
  obtain ⟨inputs, fuzzified, read, _⟩ := valid.exists_fuzzify supplied
  obtain ⟨activations, evaluated, _, sound⟩ := valid.exists_activations read
  obtain ⟨_, _, _, _, _, _, _, onGrid⟩ := valid.output.drawable.exists_grid
  obtain ⟨curve, joined, samples, _⟩ := valid.output.drawable.exists_curve sound onGrid
  have otherFuzzified := (valid.fuzzify_answering supplied byZero).trans fuzzified
  have otherJoined :=
    (valid.output.drawable.curveOf_answering sound onGrid byZero).trans joined
  -- The rules divide nothing; only reading, joining and the centroid do.
  have other := @infer_eq Exact (answering byZero) base values inputs activations curve
    otherFuzzified evaluated otherJoined
  rw [other, infer_eq fuzzified evaluated joined, Curve.centroid?_answering byZero samples]

end RuleBase.WellFormed

end RuleAdvisor.Fuzzy
