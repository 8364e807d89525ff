import RuleAdvisor.Proofs.Fuzzy.Cutting
import RuleAdvisor.Proofs.Fuzzy.Interval

/-!
Where a shape crosses a level between the positions of a list. Each two neighbours whose degrees are
strictly on opposite sides of the level give one crossing, inside the pair, and no others do. As a
shape rises once and falls once, there are two of them at most, and one between two positions on a
slant has the level as its degree.
-/

namespace RuleAdvisor.Fuzzy

open Exact

/-- The degrees at the two positions are strictly on opposite sides of the level. -/
def Shape.Straddles (shape : Shape Exact) (level : Rat) (pair : Rat × Rat) : Prop :=
  shape.degree (rat pair.1) < rat level ∧ rat level < shape.degree (rat pair.2)
    ∨ rat level < shape.degree (rat pair.1) ∧ shape.degree (rat pair.2) < rat level

instance (shape : Shape Exact) (level : Rat) : DecidablePred (shape.Straddles level) :=
  fun _ => inferInstanceAs (Decidable (_ ∨ _))

/-- A crossing found between two positions, of a shape with these breakpoints: it lies inside the
pair, and has the level as its degree if both positions are on the same slant. -/
structure Shape.CrossesAt (shape : Shape Exact) (o : Outline) (level : Rat) (pair : Rat × Rat)
    (x : Rat) : Prop where
  after : pair.1 < x
  before : x < pair.2
  rising : o.a ≤ pair.1 → pair.2 ≤ o.b → shape.degree (rat x) = rat level
  falling : o.c ≤ pair.1 → pair.2 ≤ o.d → shape.degree (rat x) = rat level

theorem length_le_two {β : Type} (kind : β → Prop) {xs : List β}
    (alternate : xs.Pairwise fun before after => kind before ∧ ¬ kind after) : xs.length ≤ 2 := by
  rcases xs with _ | ⟨first, _ | ⟨second, _ | ⟨third, rest⟩⟩⟩
  · exact Nat.zero_le 2
  · exact one_le_two
  · exact le_refl 2
  · obtain ⟨behindFirst, alternate⟩ := List.pairwise_cons.mp alternate
    obtain ⟨behindSecond, -⟩ := List.pairwise_cons.mp alternate
    have fromFirst := behindFirst second List.mem_cons_self
    have toThird := behindSecond third List.mem_cons_self
    exact absurd toThird.1 fromFirst.2

namespace Shape.HasOutline

variable {shape : Shape Exact} {o : Outline} (outline : shape.HasOutline o) {level : Rat}

include outline

theorem straddles_iff (pair : Rat × Rat) : shape.Straddles level pair
    ↔ o.height pair.1 < level ∧ level < o.height pair.2
      ∨ level < o.height pair.1 ∧ o.height pair.2 < level := by
  simp only [Shape.Straddles, outline.degree, rat_lt]

theorem straddles_iff_opposite (pair : Rat × Rat) : shape.Straddles level pair
    ↔ (o.height pair.1 - level) * (o.height pair.2 - level) < 0 := by
  rw [outline.straddles_iff, mul_neg_iff, sub_pos, sub_pos, sub_neg, sub_neg, or_comm]

theorem crossings_straddled (xs : List Rat) : shape.crossings (rat level) (xs.map rat)
    = (((adjacent xs).filter (shape.Straddles level)).map fun pair =>
      crossing o.height level pair.1 pair.2).map rat := by
  simp only [outline.crossings_eq, outline.straddles_iff_opposite]

theorem crossesAt {pair : Rat × Rat} (wide : pair.1 < pair.2)
    (straddled : shape.Straddles level pair) :
    shape.CrossesAt o level pair (crossing o.height level pair.1 pair.2) := by
  have opposite := (outline.straddles_iff_opposite pair).mp straddled
  obtain ⟨after, before⟩ := crossing_between wide opposite
  have met {p q : Rat} (straight : Straight p q o.height) (lower : p ≤ pair.1)
      (upper : pair.2 ≤ q) :
      shape.degree (rat (crossing o.height level pair.1 pair.2)) = rat level := by
    rw [outline.degree, ((straight.mono lower upper).crosses wide opposite).2.2]
  exact ⟨after, before, met o.straight_rising, met o.straight_falling⟩

/-- The first of two crossings is where the shape rises, and the second where it falls: a level that
is reached at two positions is reached between them. -/
theorem rises_before_falling (positive : 0 < level) (atMostOne : level ≤ 1)
    {first second : Rat × Rat} (wide : first.1 < first.2) (ordered : first.2 ≤ second.1)
    (alsoWide : second.1 < second.2) (straddled : shape.Straddles level first)
    (alsoStraddled : shape.Straddles level second) :
    o.height first.1 < level ∧ ¬ o.height second.1 < level := by
  have reached {x y z : Rat} (start : level < o.height x) (finish : level < o.height z)
      (after : x ≤ y) (before : y ≤ z) : ¬ o.height y < level :=
    not_lt.mpr (Outline.le_height_of_between positive atMostOne start.le finish.le after before)
  -- In any other order of the slants a low position would lie between two high ones.
  rcases (outline.straddles_iff first).mp straddled with ⟨low, high⟩ | ⟨high, low⟩ <;>
    rcases (outline.straddles_iff second).mp alsoStraddled with ⟨below, above⟩ | ⟨above, below⟩
  · exact absurd below (reached high above ordered alsoWide.le)
  · exact ⟨low, above.not_gt⟩
  · exact absurd low (reached high above wide.le (ordered.trans alsoWide.le))
  · exact absurd low (reached high above wide.le ordered)

end Shape.HasOutline

/-- A shape that passes validation crosses a level strictly between 0 and 1 once for each two
neighbours on opposite sides of it, and two times at most. -/
theorem Shape.crossings_of_accepted {shape : Shape Exact} {domain : Domain Exact} {field : String}
    (accepted : isUsable (shape.issues domain field) = true) {level : Rat} (positive : 0 < level)
    (belowOne : level < 1) {xs : List Rat} (ascending : xs.Pairwise (· < ·)) :
    ∃ o, shape.HasOutline o ∧ ∃ found : List Rat,
      shape.crossings (rat level) (xs.map rat) = found.map rat
      ∧ List.Forall₂ (shape.CrossesAt o level)
        ((adjacent xs).filter (shape.Straddles level)) found
      ∧ found.Pairwise (· < ·)
      ∧ found.length ≤ 2 := by
  have valid := (Shape.isUsable_issues_iff shape domain field).mp accepted
  obtain ⟨o, outline⟩ := valid.exists_outline
  have straddled {pair} (listed : pair ∈ (adjacent xs).filter (shape.Straddles level)) :
      pair.1 < pair.2 ∧ shape.Straddles level pair := by
    rw [List.mem_filter, decide_eq_true_iff] at listed
    exact ⟨lt_of_mem_adjacent ascending listed.1, listed.2⟩
  have ordered := (pairwise_adjacent ascending).filter (shape.Straddles level)
  refine ⟨o, outline, _, outline.crossings_straddled xs, ?_, ?_, ?_⟩
  · rw [List.forall₂_map_right_iff, List.forall₂_same]
    intro pair listed
    obtain ⟨wide, straddles⟩ := straddled listed
    exact outline.crossesAt wide straddles
  -- Each crossing lies inside its own pair, and the pairs follow one another.
  · rw [List.pairwise_map]
    refine ordered.imp_of_mem fun {first second} listed alsoListed apart => ?_
    have ends := outline.crossesAt (straddled listed).1 (straddled listed).2
    have starts := outline.crossesAt (straddled alsoListed).1 (straddled alsoListed).2
    exact ends.before.trans_le (apart.trans starts.after.le)
  · rw [List.length_map]
    -- A shape rises through a level once and falls through it once.
    apply length_le_two fun pair => o.height pair.1 < level
    refine ordered.imp_of_mem fun {first second} listed alsoListed apart => ?_
    obtain ⟨wide, straddles⟩ := straddled listed
    obtain ⟨alsoWide, alsoStraddles⟩ := straddled alsoListed
    exact outline.rises_before_falling positive belowOne.le wide apart alsoWide straddles
      alsoStraddles

/-- On the way down the positions go past the foot, so the second crossing is off the slant. -/
theorem Shape.crossings_of_accepted_tent :
    let shape : Shape Exact := ⟨.triangular, [0, 4, 8]⟩
    let xs : List Rat := [-1, 1, 3, 5, 9]
    isUsable (shape.issues ⟨0, 8⟩ "short") = true ∧ (0 : Rat) < 1 / 2 ∧ (1 / 2 : Rat) < 1
      ∧ xs.Pairwise (· < ·)
      ∧ shape.crossings (rat (1 / 2)) (xs.map rat) = [rat 2, rat (19 / 3)]
      ∧ ∃ o, shape.HasOutline o
        ∧ List.Forall₂ (shape.CrossesAt o (1 / 2)) [(1, 3), (5, 9)] [2, 19 / 3] := by
  intro shape xs
  have accepted : isUsable (shape.issues ⟨0, 8⟩ "short") = true := by decide +kernel
  have positive : (0 : Rat) < 1 / 2 := by norm_num
  have belowOne : (1 / 2 : Rat) < 1 := by norm_num
  have ascending : xs.Pairwise (· < ·) := by decide +kernel
  obtain ⟨o, outline, found, same, crossed, -⟩ :=
    Shape.crossings_of_accepted accepted positive belowOne ascending
  have listed : shape.crossings (rat (1 / 2)) (xs.map rat) = [2, 19 / 3].map rat := by
    decide +kernel
  have straddled : (adjacent xs).filter (shape.Straddles (1 / 2)) = [(1, 3), (5, 9)] := by
    decide +kernel
  obtain rfl : found = [2, 19 / 3] :=
    List.map_injective_iff.mpr (fun p q => rat.inj) (same.symm.trans listed)
  rw [straddled] at crossed
  exact ⟨accepted, positive, belowOne, ascending, listed, o, outline, crossed⟩

end RuleAdvisor.Fuzzy
