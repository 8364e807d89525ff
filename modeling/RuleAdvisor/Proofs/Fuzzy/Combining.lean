import RuleAdvisor.Proofs.Fuzzy.Cutting
import RuleAdvisor.Proofs.Fuzzy.Grid
import RuleAdvisor.Proofs.Fuzzy.Joining
import RuleAdvisor.Proofs.Fuzzy.Merging

/-!
The joined curve over a grid that has all breakpoints. If no corner is too near to the grid or to
another corner, the curve is sampled at the grid and at every corner. It is then traced from the
highest of the cuts, at positions between which each of them is a line.
-/

namespace RuleAdvisor.Fuzzy

open Exact

theorem Shape.mem_crossings_iff {shape : Shape Exact} {o : Outline} (outline : shape.HasOutline o)
    (level : Rat) (grid : List Rat) (x : Exact) :
    x ∈ shape.crossings (rat level) (grid.map rat) ↔ ∃ pair ∈ adjacent grid,
      (o.height pair.1 - level) * (o.height pair.2 - level) < 0
        ∧ x = rat (crossing o.height level pair.1 pair.2) := by
  rw [outline.crossings_eq, List.map_map, List.mem_map]
  refine exists_congr fun pair => ?_
  rw [List.mem_filter, decide_eq_true_eq, and_assoc, Function.comp_apply, eq_comm (a := x)]

/-- The activation's conclusion, cut off at its strength, is the cut. -/
def Output.Draws (output : Output Exact) (activation : Activation Exact) (cut : Cut) : Prop :=
  activation.strength = rat cut.strength
    ∧ ∃ shape, output.shapeOf activation.conclusion = .ok shape ∧ shape.HasOutline cut.outline

theorem Output.Draws.bends_iff {output : Output Exact} {activation : Activation Exact} {cut : Cut}
    (draws : output.Draws activation cut) {grid : List Rat} (ascending : grid.Pairwise (· < ·))
    (onGrid : cut.outline.OnGrid grid) (x : Exact) :
    output.Bends (grid.map rat) activation x
      ↔ ∃ y, x = rat y ∧ cut.outline.IsCorner cut.strength y ∧ y ∉ grid := by
  obtain ⟨strength, shape, named, outline⟩ := draws
  have between : (0 < rat cut.strength ∧ rat cut.strength < 1) ↔ cut.strength < 1 := by
    simp [cut.positive]
  simp only [Output.Bends, between, named, Except.ok.injEq, exists_eq_left', strength,
    Shape.mem_crossings_iff outline, ← Cut.crosses_iff onGrid ascending]
  constructor
  · rintro ⟨short, pair, neighbours, opposite, rfl⟩
    exact ⟨_, rfl, short, pair, neighbours, opposite, rfl⟩
  · rintro ⟨_, rfl, short, pair, neighbours, opposite, rfl⟩
    exact ⟨short, pair, neighbours, opposite, rfl⟩

/-- Each of the corners is on the grid, or further than the tolerance from all of it and from every
other corner. -/
def Scattered (grid : List Rat) (corner : Rat → Prop) : Prop :=
  ∀ x, corner x → x ∈ grid
    ∨ (∀ y ∈ grid, nearness < |x - y|) ∧ ∀ y, corner y → x = y ∨ nearness < |x - y|

theorem Scattered.mono {grid : List Rat} {corner other : Rat → Prop}
    (scattered : Scattered grid corner) (fewer : ∀ x, other x → corner x) :
    Scattered grid other := by
  intro x isCorner
  refine (scattered x (fewer x isCorner)).imp id fun apart => ?_
  exact ⟨apart.1, fun y alsoCorner => apart.2 y (fewer y alsoCorner)⟩

theorem Scattered.apart {grid extra : List Rat} {corner : Rat → Prop}
    (scattered : Scattered grid corner) (spread : grid.Pairwise fun x y => nearness < y - x)
    (mem_extra : ∀ x, x ∈ extra ↔ corner x ∧ x ∉ grid) (x y : Rat) (first : x ∈ grid ∨ x ∈ extra)
    (second : y ∈ grid ∨ y ∈ extra) : x = y ∨ nearness < |x - y| := by
  have off {z : Rat} (listed : z ∈ extra) : (∀ y ∈ grid, nearness < |z - y|)
      ∧ ∀ y, corner y → z = y ∨ nearness < |z - y| := by
    obtain ⟨isCorner, offGrid⟩ := (mem_extra z).mp listed
    exact (scattered z isCorner).resolve_left offGrid
  rcases first with onGrid | corner
  · rcases second with alsoOnGrid | otherCorner
    · have symmetric : Std.Symm fun x y : Rat => nearness < |x - y| :=
        ⟨fun x y further => by rwa [abs_sub_comm]⟩
      have bothWays : grid.Pairwise fun x y => nearness < |x - y| :=
        spread.imp fun {x y} further => by
          rw [abs_sub_comm]
          exact further.trans_le (le_abs_self _)
      exact or_iff_not_imp_left.mpr (bothWays.forall onGrid alsoOnGrid)
    · rw [abs_sub_comm]
      exact .inr ((off otherCorner).1 x onGrid)
  · rcases second with alsoOnGrid | otherCorner
    · exact .inr ((off corner).1 y alsoOnGrid)
    · exact (off corner).2 y ((mem_extra y).mp otherCorner).1

/-- The positions of the grid and the corners of the cuts, in ascending order. -/
structure Sampling (grid : List Rat) (cuts : List Cut) (positions : List Rat) : Prop where
  ascending : positions.Pairwise (· < ·)
  mem_iff : ∀ x, x ∈ positions
    ↔ x ∈ grid ∨ ∃ cut ∈ cuts, cut.outline.IsCorner cut.strength x

namespace Sampling

variable {grid : List Rat} {cuts : List Cut} {positions : List Rat}
  (sampling : Sampling grid cuts positions) (gridAscending : grid.Pairwise (· < ·))
  (onGrid : ∀ cut ∈ cuts, cut.outline.OnGrid grid)

include sampling gridAscending onGrid

theorem between {first last : Rat} (starts : grid.head? = some first)
    (ends : grid.getLast? = some last) {x : Rat} (listed : x ∈ positions) :
    first ≤ x ∧ x ≤ last := by
  rcases (sampling.mem_iff x).mp listed with inGrid | ⟨cut, drawn, corner⟩
  · exact ⟨head?_le gridAscending starts inGrid, le_getLast? gridAscending ends inGrid⟩
  · obtain ⟨fromA, toD⟩ := Outline.corner_within cut.positive.le cut.atMostOne corner
    have lower := head?_le gridAscending starts (onGrid cut drawn).a
    have upper := le_getLast? gridAscending ends (onGrid cut drawn).d
    exact ⟨lower.trans fromA, toD.trans upper⟩

theorem ends {first last : Rat} (starts : grid.head? = some first)
    (ends : grid.getLast? = some last) :
    positions.head? = some first ∧ positions.getLast? = some last := by
  have within {x : Rat} := sampling.between gridAscending onGrid starts ends (x := x)
  have kept {x : Rat} (listed : x ∈ grid) : x ∈ positions := (sampling.mem_iff x).mpr (.inl listed)
  constructor
  · exact head?_eq_of_le sampling.ascending (kept (List.mem_of_head? starts))
      fun x listed => (within listed).1
  · exact getLast?_eq_of_le sampling.ascending (kept (List.mem_of_getLast? ends))
      fun x listed => (within listed).2

theorem straight {pair : Rat × Rat} (neighbours : pair ∈ adjacent positions) {cut : Cut}
    (drawn : cut ∈ cuts) : Straight pair.1 pair.2 cut.degree := by
  have own := onGrid cut drawn
  have filled : grid ≠ [] := List.ne_nil_of_mem own.a
  have kept {x : Rat} (listed : x ∈ grid) : x ∈ positions := (sampling.mem_iff x).mpr (.inl listed)
  have sampled : cut.outline.OnGrid positions := by
    constructor
    case a => exact kept own.a
    case b => exact kept own.b
    case c => exact kept own.c
    case d => exact kept own.d
    case left =>
      intro jump
      exact (sampling.ends gridAscending onGrid (own.left jump)
        (List.getLast?_eq_some_getLast filled)).1
    case right =>
      intro jump
      exact (sampling.ends gridAscending onGrid (List.head?_eq_some_head filled)
        (own.right jump)).2
  -- The corners of the cut are sampled too, so none lies strictly between the two.
  have corner {x : Rat} (isCorner : cut.outline.IsCorner cut.strength x) :
      pair.2 ≤ x ∨ x ≤ pair.1 :=
    outside_of_mem_adjacent sampling.ascending neighbours
      ((sampling.mem_iff x).mpr (.inr ⟨cut, drawn, isCorner⟩))
  exact Cut.straight_of_clear
    ⟨sampled.clear sampling.ascending neighbours, corner (.inl rfl), corner (.inr rfl)⟩

end Sampling

def Clip.Draws (clip : Clip Exact) (cut : Cut) : Prop :=
  clip.strength = rat cut.strength ∧ clip.shape.HasOutline cut.outline

theorem joinedDegree_eq_highest {clips : List (Clip Exact)} {cuts : List Cut}
    (draws : List.Forall₂ Clip.Draws clips cuts) (x : Rat) :
    Output.joinedDegree clips (rat x) = rat (highest (cuts.map Cut.degree) x) := by
  have joined (start : Rat) : clips.foldl (fun degree clip =>
        let clipped := Number.least clip.strength (clip.shape.degree (rat x))
        if degree < clipped then clipped else degree) (rat start)
      = rat (((cuts.map Cut.degree).map fun g => g x).foldl max start) := by
    induction draws generalizing start with
    | nil => rfl
    | @cons clip cut _ _ first _ ih =>
        have clipped : Number.least clip.strength (clip.shape.degree (rat x))
            = rat (cut.degree x) := by
          rw [first.1, first.2.degree, least_rat, Cut.degree]
        rw [List.foldl_cons, List.map_cons, List.map_cons, List.foldl_cons, ← ih]
        simp only [clipped, raised_rat]
  rw [Output.joinedDegree, literal_eq, Nat.cast_zero]
  exact joined 0

namespace Output

variable {output : Output Exact} {activations : List (Activation Exact)} {cuts : List Cut}

theorem exists_clips {fired : List (Activation Exact)}
    (draws : List.Forall₂ output.Draws fired cuts) :
    ∃ clips, fired.mapM output.clip = .ok clips ∧ List.Forall₂ Clip.Draws clips cuts := by
  simp only [mapM_eq_ok_iff]
  induction draws with
  | nil => exact ⟨[], .nil, .nil⟩
  | @cons activation _ _ _ first _ ih =>
      obtain ⟨strength, shape, named, outline⟩ := first
      obtain ⟨clips, walked, same⟩ := ih
      exact ⟨⟨activation.strength, shape⟩ :: clips, .cons (clip_eq_ok_iff.mpr ⟨named, rfl⟩) walked,
        .cons ⟨strength, outline⟩ same⟩

/-- The joined curve is traced from the highest of the cuts, at the grid and all corners. -/
theorem exists_sampling {grid : List Rat} (ends : output.Ends)
    (sampled : output.domain.samples output.resolution = grid.map rat)
    (spread : grid.Pairwise fun x y => nearness < y - x)
    (draws : List.Forall₂ output.Draws (firedOf activations) cuts)
    (onGrid : ∀ cut ∈ cuts, cut.outline.OnGrid grid)
    (scattered : Scattered grid fun x => ∃ cut ∈ cuts, cut.outline.IsCorner cut.strength x) :
    ∃ positions, Sampling grid cuts positions
      ∧ output.curveOf activations = .ok (traced (highest (cuts.map Cut.degree)) positions) := by
  obtain ⟨clips, clipsFound, clipDraws⟩ := exists_clips draws
  have named : ∀ activation ∈ firedOf activations,
      activation.conclusion ∈ output.categories.keys := by
    intro activation fired
    obtain ⟨cut, _, _, shape, named, _⟩ := exists_mem_of_forall₂ draws fired
    exact exists_shapeOf_iff.mp ⟨shape, named⟩
  obtain ⟨curve, joined⟩ := exists_curveOf_iff.mpr ⟨ends, named⟩
  obtain ⟨-, _, _, ⟨corners, walked, rfl⟩, alsoFound, rfl⟩ := curveOf_eq_ok_iff.mp joined
  obtain rfl := Except.ok.inj (clipsFound.symm.trans alsoFound)
  rw [sampled] at walked joined
  have ascending : grid.Pairwise (· < ·) :=
    spread.imp fun further => sub_pos.mp (nearness_pos.trans further)
  -- What is sampled beside the grid are the corners off it.
  have mem_corners (x : Exact) : x ∈ corners.flatten ↔ ∃ y, x = rat y
      ∧ (∃ cut ∈ cuts, cut.outline.IsCorner cut.strength y) ∧ y ∉ grid := by
    rw [mem_allCorners_iff walked]
    constructor
    · rintro ⟨activation, fired, bends⟩
      obtain ⟨cut, drawn, isCut⟩ := exists_mem_of_forall₂ draws fired
      obtain ⟨y, same, corner, offGrid⟩ := (isCut.bends_iff ascending (onGrid cut drawn) x).mp bends
      exact ⟨y, same, ⟨cut, drawn, corner⟩, offGrid⟩
    · rintro ⟨y, same, ⟨cut, drawn, corner⟩, offGrid⟩
      obtain ⟨activation, fired, isCut⟩ := exists_of_mem_forall₂ draws drawn
      exact ⟨activation, fired, (isCut.bends_iff ascending (onGrid cut drawn) x).mpr
        ⟨y, same, corner, offGrid⟩⟩
  obtain ⟨extra, inRationals⟩ := exists_map_rat fun x member =>
    ((mem_corners x).mp member).imp fun y parts => parts.1
  have mem_extra (x : Rat) : x ∈ extra
      ↔ (∃ cut ∈ cuts, cut.outline.IsCorner cut.strength x) ∧ x ∉ grid := by
    have listed := mem_corners (rat x)
    simpa [inRationals] using listed
  obtain ⟨kept, merged, merges⟩ := exists_mergePositions_rat grid extra
  have mem_kept := merges.mem_iff (scattered.apart spread mem_extra)
  refine ⟨kept, ⟨?_, ?_⟩, ?_⟩
  · exact merges.apart.imp fun further => sub_pos.mp (nearness_pos.trans further)
  · intro x
    rw [mem_kept, mem_extra]
    by_cases inGrid : x ∈ grid <;> simp [inGrid]
  · rw [joined, inRationals, merged, traced, List.map_map]
    congr 1
    refine List.map_congr_left fun x _ => ?_
    rw [Function.comp_apply, joinedDegree_eq_highest clipDraws]

end Output

/-- The domain ends after some whole steps, and these are further than the tolerance. -/
structure Output.Gridded (output : Output Exact) (least step : Rat) (count : Nat) : Prop where
  domain : output.domain = ⟨rat least, rat (gridPoint least step count)⟩
  resolution : output.resolution = rat step
  stepped : 0 < count
  apart : nearness < step

namespace Output.Gridded

variable {output : Output Exact} {least step : Rat} {count : Nat}
  (gridded : output.Gridded least step count)

include gridded

theorem positive : 0 < step := nearness_pos.trans gridded.apart

theorem ordered : least < gridPoint least step count := by
  have forward := gridPoint_lt gridded.positive least gridded.stepped
  rwa [gridPoint_zero] at forward

theorem ends : output.Ends :=
  ends_of_rational gridded.domain gridded.resolution gridded.ordered gridded.positive

theorem samples_eq :
    output.domain.samples output.resolution = (gridPoints least step count).map rat := by
  have whole : (gridPoint least step count - least) / step = count := by
    rw [gridPoint, add_sub_cancel_left, mul_div_cancel_right₀ _ gridded.positive.ne']
  have near : |(gridPoint least step count - least) / step - ((count : Nat) : Int)| ≤ nearness := by
    rw [whole, Int.cast_natCast, sub_self, abs_zero]
    exact nearness_pos.le
  have taken : stepsTaken least (gridPoint least step count) step = count := by
    have counted := eq_stepsTaken_of_near gridded.ordered gridded.positive near
    exact_mod_cast counted.symm
  have onEnd : stepsEnd least (gridPoint least step count) step = gridPoint least step count := by
    rw [stepsEnd, taken]
  have overlooked := mul_pos gridded.positive nearness_pos
  rw [gridded.domain, gridded.resolution,
    samples_eq_samplePoints gridded.ordered gridded.positive,
    samplePoints_open (by rw [onEnd, sub_self]; exact not_lt.mpr overlooked.le), taken]

theorem spread :
    (gridPoints least step count).Pairwise fun x y => nearness < y - x := by
  rw [gridPoints, List.pairwise_map]
  refine List.pairwise_lt_range.imp fun {i j} ordered => ?_
  have oneMore := gridPoint_le gridded.positive least (Nat.succ_le_of_lt ordered)
  rw [Nat.succ_eq_add_one, gridPoint_succ] at oneMore
  linarith [gridded.apart]

theorem traces {cuts : List Cut} {positions : List Rat}
    (sampling : Sampling (gridPoints least step count) cuts positions)
    (onGrid : ∀ cut ∈ cuts, cut.outline.OnGrid (gridPoints least step count)) :
    Traces least (gridPoint least step count) (cuts.map Cut.degree) positions := by
  have ascending : (gridPoints least step count).Pairwise (· < ·) :=
    gridPoints_ascending gridded.positive
  obtain ⟨starts, ends⟩ :=
    sampling.ends ascending onGrid head?_gridPoints getLast?_gridPoints
  refine ⟨sampling.ascending, starts, ends, gridded.ordered, fun pair neighbours => ?_⟩
  rw [List.forall_mem_map]
  exact fun cut drawn => sampling.straight ascending onGrid neighbours drawn

end Output.Gridded

end RuleAdvisor.Fuzzy
