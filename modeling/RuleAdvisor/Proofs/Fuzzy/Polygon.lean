import RuleAdvisor.Proofs.Fuzzy.Combining
import RuleAdvisor.Proofs.Fuzzy.Refining

/-!
The centroid below a single conclusion that is cut off. The breakpoints at its foot and the corners
at its top are the vertices of a polygon, and the centroid of the sampled curve is that of this
polygon, however finely it is sampled.
-/

namespace RuleAdvisor.Fuzzy

open Exact

def edges (vertices : List (Rat × Rat)) : List ((Rat × Rat) × (Rat × Rat)) :=
  adjacent (vertices ++ vertices.take 1)

/-- Twice the area, with a sign, of the triangle that an edge spans with the origin. -/
def spanned (edge : (Rat × Rat) × (Rat × Rat)) : Rat :=
  edge.1.1 * edge.2.2 - edge.2.1 * edge.1.2

/-- The first coordinate of the centroid of a polygon: that of each triangle, a third of the sum of
its vertices', weighted with the triangle's area. -/
def polygonCentroid (vertices : List (Rat × Rat)) : Rat :=
  ((edges vertices).map fun edge => (edge.1.1 + edge.2.1) / 3 * spanned edge).sum
    / ((edges vertices).map spanned).sum

namespace Cut

variable (cut : Cut)

def polygon : List (Rat × Rat) :=
  [(cut.outline.a, 0), (cut.corners.1, cut.strength), (cut.corners.2, cut.strength),
    (cut.outline.d, 0)]

def area : Rat :=
  cut.strength * (cut.outline.d - cut.outline.a + (cut.corners.2 - cut.corners.1)) / 2

def moment : Rat :=
  cut.strength * (cut.outline.d ^ 2 + cut.outline.d * cut.corners.2 + cut.corners.2 ^ 2
    - cut.corners.1 ^ 2 - cut.corners.1 * cut.outline.a - cut.outline.a ^ 2) / 6

/-- The stretches along which the cut is a line. -/
def stretches (first last : Rat) : List Rat :=
  [first, cut.outline.a, cut.corners.1, cut.corners.2, cut.outline.d, last]

variable {cut}

theorem area_pos : 0 < cut.area := by
  have width : 0 < cut.outline.d - cut.outline.a + (cut.corners.2 - cut.corners.1) := by
    linarith [cut.outline.wide, cut.ordered]
  exact div_pos (mul_pos cut.positive width) two_pos

theorem edges_polygon : edges cut.polygon
    = [((cut.outline.a, 0), (cut.corners.1, cut.strength)),
      ((cut.corners.1, cut.strength), (cut.corners.2, cut.strength)),
      ((cut.corners.2, cut.strength), (cut.outline.d, 0)),
      ((cut.outline.d, 0), (cut.outline.a, 0))] := rfl

theorem polygonCentroid_polygon : polygonCentroid cut.polygon = cut.moment / cut.area := by
  -- The vertices are listed clockwise, which makes the area negative.
  have twice : ((edges cut.polygon).map spanned).sum = -(2 * cut.area) := by
    simp only [edges_polygon, List.map_cons, List.map_nil, List.sum_cons, List.sum_nil, spanned,
      area]
    ring
  have weighted : ((edges cut.polygon).map fun edge =>
      (edge.1.1 + edge.2.1) / 3 * spanned edge).sum = -(2 * cut.moment) := by
    simp only [edges_polygon, List.map_cons, List.map_nil, List.sum_cons, List.sum_nil, spanned,
      moment]
    ring
  rw [polygonCentroid, twice, weighted, neg_div_neg_eq, mul_div_mul_left _ _ two_ne_zero]

theorem degree_nonneg (x : Rat) : 0 ≤ cut.degree x :=
  le_min cut.positive.le (cut.outline.height_within x).1

theorem degree_top {x : Rat} (lower : cut.corners.1 ≤ x) (upper : x ≤ cut.corners.2) :
    cut.degree x = cut.strength :=
  min_eq_left ((Outline.le_height_iff cut.positive cut.atMostOne x).mpr ⟨lower, upper⟩)

theorem degree_of_height {x : Rat} (flat : cut.outline.height x = 0) : cut.degree x = 0 := by
  rw [degree, flat, min_eq_right cut.positive.le]

theorem adjacent_stretches (first last : Rat) :
    adjacent (cut.stretches first last)
      = [(first, cut.outline.a), (cut.outline.a, cut.corners.1), (cut.corners.1, cut.corners.2),
        (cut.corners.2, cut.outline.d), (cut.outline.d, last)] := rfl

section Ends

variable {grid : List Rat} (onGrid : cut.outline.OnGrid grid) {first last : Rat}

include onGrid

theorem foot_left (ascending : grid.Pairwise (· < ·)) (starts : grid.head? = some first) :
    (cut.degree first = 0 ∧ cut.degree cut.outline.a = 0)
      ∨ first = cut.outline.a ∧ cut.corners.1 = cut.outline.a := by
  obtain ⟨fromA, toB, -, -⟩ := cut.corners_within
  rcases cut.outline.rises.eq_or_lt with jump | slanted
  · have first_eq := starts.symm.trans (onGrid.left jump)
    exact .inr ⟨Option.some_inj.mp first_eq, le_antisymm (toB.trans jump.ge) fromA⟩
  · have atA : cut.degree cut.outline.a = 0 := degree_of_height (Outline.height_a slanted)
    rcases (head?_le ascending starts onGrid.a).eq_or_lt with same | before
    · exact .inl ⟨same ▸ atA, atA⟩
    · exact .inl ⟨degree_of_height (Outline.height_of_outside (.inl before)), atA⟩

theorem foot_right (ascending : grid.Pairwise (· < ·)) (ends : grid.getLast? = some last) :
    (cut.degree cut.outline.d = 0 ∧ cut.degree last = 0)
      ∨ cut.outline.d = last ∧ cut.corners.2 = cut.outline.d := by
  obtain ⟨-, -, fromC, toD⟩ := cut.corners_within
  rcases cut.outline.falls.eq_or_lt with jump | slanted
  · have last_eq := (onGrid.right jump).symm.trans ends
    exact .inr ⟨Option.some_inj.mp last_eq, le_antisymm toD (jump.ge.trans fromC)⟩
  · have atD : cut.degree cut.outline.d = 0 := degree_of_height (Outline.height_d slanted)
    rcases (le_getLast? ascending ends onGrid.d).eq_or_lt with same | beyond
    · exact .inl ⟨atD, same ▸ atD⟩
    · exact .inl ⟨atD, degree_of_height (Outline.height_of_outside (.inr beyond))⟩

variable (starts : grid.head? = some first) (ends : grid.getLast? = some last)

include starts ends

theorem stretches_ascending (ascending : grid.Pairwise (· < ·)) :
    (cut.stretches first last).Pairwise (· ≤ ·) := by
  obtain ⟨fromA, toB, fromC, toD⟩ := cut.corners_within
  refine List.isChain_iff_pairwise.mp ?_
  simp only [stretches, List.isChain_cons_cons, List.isChain_singleton, and_true]
  exact ⟨head?_le ascending starts onGrid.a, fromA, cut.ordered, toD,
    le_getLast? ascending ends onGrid.d⟩

theorem straight_stretches :
    ∀ pair ∈ adjacent (cut.stretches first last), Straight pair.1 pair.2 cut.degree := by
  obtain ⟨fromA, toB, fromC, toD⟩ := cut.corners_within
  have ordered := cut.ordered
  have rises := cut.outline.rises
  have level := cut.outline.level
  have falls := cut.outline.falls
  have wide := cut.outline.wide.le
  -- At the ends of the domain a foot may be missing, and the stretch to it has no width.
  have toFoot : Straight first cut.outline.a cut.degree := by
    refine straight_of_clear ⟨⟨.inl (le_refl _), .inl rises, .inl (rises.trans level), .inl wide,
      fun jump => ?_, fun _ => wide⟩, .inl fromA, .inl (fromA.trans ordered)⟩
    exact (Option.some_inj.mp ((onGrid.left jump).symm.trans starts)).le
  have rising : Straight cut.outline.a cut.corners.1 cut.degree :=
    straight_of_clear ⟨⟨.inr (le_refl _), .inl toB, .inl (toB.trans level),
      .inl (ordered.trans toD), fun _ => le_refl _, fun _ => ordered.trans toD⟩,
      .inl (le_refl _), .inl ordered⟩
  have falling : Straight cut.corners.2 cut.outline.d cut.degree :=
    straight_of_clear ⟨⟨.inr (fromA.trans ordered), .inr (level.trans fromC), .inr fromC,
      .inl (le_refl _), fun _ => fromA.trans ordered, fun _ => le_refl _⟩,
      .inr ordered, .inr (le_refl _)⟩
  have fromFoot : Straight cut.outline.d last cut.degree := by
    refine straight_of_clear ⟨⟨.inr wide, .inr (level.trans falls), .inr falls, .inr (le_refl _),
      fun _ => wide, fun jump => ?_⟩, .inr (ordered.trans toD), .inr toD⟩
    exact (Option.some_inj.mp (ends.symm.trans (onGrid.right jump))).le
  have top : Straight cut.corners.1 cut.corners.2 cut.degree :=
    .of_const fun x lower upper => degree_top lower upper
  rw [adjacent_stretches]
  simp only [List.forall_mem_cons]
  exact ⟨toFoot, rising, top, falling, fromFoot, fun _ absent => absurd absent List.not_mem_nil⟩

end Ends

end Cut

/-- The area and the moment below a function that is 0 at its feet, where it does not begin or end
with the domain, and constant at its top. -/
theorem total_below {f : Rat → Rat} {first a l r d last s : Rat} (atLeft : f l = s)
    (atRight : f r = s) (left : (f first = 0 ∧ f a = 0) ∨ first = a ∧ l = a)
    (right : (f d = 0 ∧ f last = 0) ∨ d = last ∧ r = d) :
    total (areaBelow f) [first, a, l, r, d, last] = s * (d - a + (r - l)) / 2
      ∧ total (momentBelow f) [first, a, l, r, d, last]
        = s * (d ^ 2 + d * r + r ^ 2 - l ^ 2 - l * a - a ^ 2) / 6 := by
  simp only [total, adjacent, List.tail_cons, List.zip_cons_cons, List.zip_nil_right,
    List.map_cons, List.map_nil, List.sum_cons, List.sum_nil, areaBelow, momentBelow, atLeft,
    atRight]
  rcases left with ⟨start, foot⟩ | ⟨rfl, rfl⟩
  · rcases right with ⟨otherFoot, stop⟩ | ⟨rfl, rfl⟩
    · rw [start, foot, otherFoot, stop]
      constructor <;> ring
    · rw [start, foot, atRight]
      constructor <;> ring
  · rcases right with ⟨otherFoot, stop⟩ | ⟨rfl, rfl⟩
    · rw [atLeft, otherFoot, stop]
      constructor <;> ring
    · rw [atLeft, atRight]
      constructor <;> ring

/-- The mass below a cut is that of its polygon, wherever else it is sampled. -/
theorem Sampling.mass_eq {grid positions : List Rat} {cut : Cut}
    (sampling : Sampling grid [cut] positions) (ascending : grid.Pairwise (· < ·))
    (onGrid : cut.outline.OnGrid grid) :
    (traced cut.degree positions).mass = ⟨rat cut.area, rat cut.moment⟩ := by
  have filled : grid ≠ [] := List.ne_nil_of_mem onGrid.a
  have starts := List.head?_eq_some_head filled
  have ends := List.getLast?_eq_some_getLast filled
  obtain ⟨positionsStart, positionsEnd⟩ :=
    sampling.ends ascending (List.forall_mem_singleton.mpr onGrid) starts ends
  have within : ∀ x ∈ cut.stretches (grid.head filled) (grid.getLast filled), x ∈ positions := by
    simp [Cut.stretches, sampling.mem_iff, onGrid.a, onGrid.d, Outline.IsCorner, Cut.corners]
  have straight := cut.straight_stretches onGrid starts ends
  -- All samples between the vertices lie on a line from one vertex to the next.
  have refined (share : Rat → Rat → Rat)
      (splits : ∀ pair ∈ adjacent (cut.stretches (grid.head filled) (grid.getLast filled)),
        Splits share pair.1 pair.2) :
      total share positions
        = total share (cut.stretches (grid.head filled) (grid.getLast filled)) :=
    total_refined sampling.ascending (cut.stretches_ascending onGrid starts ends ascending)
      positionsStart positionsEnd within splits
  obtain ⟨area, moment⟩ := total_below (cut.degree_top (le_refl _) cut.ordered)
    (cut.degree_top cut.ordered (le_refl _)) (cut.foot_left onGrid ascending starts)
    (cut.foot_right onGrid ascending ends)
  rw [mass_traced cut.degree_nonneg sampling.ascending,
    refined _ fun pair neighbours => (straight pair neighbours).areaBelow_splits,
    refined _ fun pair neighbours => (straight pair neighbours).momentBelow_splits,
    Cut.stretches, area, moment]
  rfl

/-- What is cut off from one conclusion has the centroid of a polygon, its breakpoints at the foot
and its corners at the top. -/
theorem Output.Gridded.centroid_eq_polygon {output : Output Exact} {least step : Rat} {count : Nat}
    (gridded : output.Gridded least step count) {category : String} {shape : Shape Exact}
    (found : output.categories.get? category = some shape) {o : Outline}
    (outline : shape.HasOutline o) (onGrid : o.OnGrid (gridPoints least step count)) {s : Rat}
    (positive : 0 < s) (atMostOne : s ≤ 1)
    (scattered : Scattered (gridPoints least step count) (o.IsCorner s)) (ruleId : String) :
    ∃ curve, output.curveOf [⟨ruleId, category, rat s⟩] = .ok curve
      ∧ curve.centroid? = some (rat (polygonCentroid
        [(o.a, 0), (o.a + s * (o.b - o.a), s), (o.d - s * (o.d - o.c), s), (o.d, 0)])) := by
  let cut : Cut := ⟨o, s, positive, atMostOne⟩
  have fired : firedOf [(⟨ruleId, category, rat s⟩ : Activation Exact)]
      = [⟨ruleId, category, rat s⟩] := by
    simp [firedOf, positive]
  have draws : List.Forall₂ output.Draws (firedOf [⟨ruleId, category, rat s⟩]) [cut] := by
    rw [fired]
    exact .cons ⟨rfl, shape, shapeOf_eq_ok_iff.mpr found, outline⟩ .nil
  obtain ⟨positions, sampling, joined⟩ :=
    exists_sampling gridded.ends gridded.samples_eq gridded.spread draws
      (List.forall_mem_singleton.mpr onGrid)
      (scattered.mono fun x corner => by simpa using corner)
  -- Of one cut alone the highest is that cut.
  have single : highest [cut.degree] = cut.degree :=
    funext fun x => max_eq_right (cut.degree_nonneg x)
  rw [List.map_singleton, single] at joined
  have mass := sampling.mass_eq (gridPoints_ascending gridded.positive) onGrid
  refine ⟨_, joined, ?_⟩
  rw [Curve.centroid?_eq mass cut.area_pos, ← cut.polygonCentroid_polygon]
  rfl

def ramp : Output Exact where
  name := "watering_time"
  unit := " min"
  domain := ⟨0, 10⟩
  categories := .mk [("long", ⟨.triangular, [0, 10, 10]⟩)] (by simp)
  resolution := 1

def rampOutline : Outline := ⟨0, 10, 10, 10, by norm_num, by norm_num, by norm_num, by norm_num⟩

/-- Cut off at a quarter the ramp has a corner halfway between two samples. -/
theorem centroid_eq_polygon_halfway :
    ramp.Gridded 0 1 10
      ∧ ramp.categories.get? "long" = some ⟨.triangular, [0, 10, 10]⟩
      ∧ Shape.HasOutline ⟨.triangular, [0, 10, 10]⟩ rampOutline
      ∧ rampOutline.OnGrid (gridPoints 0 1 10) ∧ (0 : Rat) < 1 / 4 ∧ (1 / 4 : Rat) ≤ 1
      ∧ Scattered (gridPoints 0 1 10) (rampOutline.IsCorner (1 / 4))
      ∧ ∃ curve, ramp.curveOf [⟨"R1", "long", rat (1 / 4)⟩] = .ok curve
        ∧ curve.centroid? = some (rat (235 / 42)) := by
  have gridded : ramp.Gridded 0 1 10 := by
    constructor
    case domain => simp [ramp, gridPoint]
    case resolution => simp [ramp]
    case stepped => norm_num
    case apart => norm_num [nearness]
  have outline : Shape.HasOutline ⟨.triangular, [0, 10, 10]⟩ rampOutline :=
    .inr ⟨rfl, by simp [rampOutline]⟩
  have onGrid : rampOutline.OnGrid (gridPoints 0 1 10) := by
    constructor
    case a => decide +kernel
    case b => decide +kernel
    case c => decide +kernel
    case d => decide +kernel
    case left => exact fun jump => absurd jump (by norm_num [rampOutline])
    case right => exact fun _ => by decide +kernel
  have scattered : Scattered (gridPoints 0 1 10) (rampOutline.IsCorner (1 / 4)) := by
    have apart : ∀ y ∈ gridPoints 0 1 10, nearness < |5 / 2 - y| := by decide +kernel
    have corners (x : Rat) : rampOutline.IsCorner (1 / 4) x ↔ x = 5 / 2 ∨ x = 10 := by
      norm_num [Outline.IsCorner, Outline.corners, rampOutline]
    intro x corner
    rcases (corners x).mp corner with rfl | rfl
    · refine .inr ⟨apart, fun y other => ?_⟩
      rcases (corners y).mp other with rfl | rfl
      · exact .inl rfl
      · exact .inr (apart 10 (by decide +kernel))
    · exact .inl (by decide +kernel)
  have found : ramp.categories.get? "long" = some ⟨.triangular, [0, 10, 10]⟩ := rfl
  have positive : (0 : Rat) < 1 / 4 := by norm_num
  have atMostOne : (1 / 4 : Rat) ≤ 1 := by norm_num
  obtain ⟨curve, joined, centroid⟩ :=
    gridded.centroid_eq_polygon found outline onGrid positive atMostOne scattered "R1"
  refine ⟨gridded, found, outline, onGrid, positive, atMostOne, scattered, curve, joined, ?_⟩
  have value : polygonCentroid [(rampOutline.a, 0),
      (rampOutline.a + 1 / 4 * (rampOutline.b - rampOutline.a), 1 / 4),
      (rampOutline.d - 1 / 4 * (rampOutline.d - rampOutline.c), 1 / 4), (rampOutline.d, 0)]
      = 235 / 42 := by decide +kernel
  exact value ▸ centroid

end RuleAdvisor.Fuzzy
