import RuleAdvisor.Proofs.Fuzzy.Tracing

/-!
Shapes cut off at a strength. A line crosses a level where the line drawn from its ends does, so a
cut is a line between positions of which none of its breakpoints and corners is strictly between.
Where the breakpoints are on a grid, the crossings found between its neighbours are the corners that
are not on it.
-/

namespace RuleAdvisor.Fuzzy

open Exact

def crossing (f : Rat → Rat) (level p q : Rat) : Rat :=
  p + (level - f p) / (f q - f p) * (q - p)

section Crossing

variable {p q level : Rat} {f : Rat → Rat}

theorem crossing_between (wide : p < q) (opposite : (f p - level) * (f q - level) < 0) :
    p < crossing f level p q ∧ crossing f level p q < q := by
  have width := sub_pos.mpr wide
  obtain ⟨positive, belowOne⟩ := share_of_opposite opposite
  have forward := mul_pos positive width
  have short := mul_lt_of_lt_one_left width belowOne
  rw [crossing]
  constructor <;> linarith

theorem Straight.crosses (straight : Straight p q f) (wide : p < q)
    (opposite : (f p - level) * (f q - level) < 0) :
    p < crossing f level p q ∧ crossing f level p q < q ∧ f (crossing f level p q) = level := by
  have apart := apart_of_opposite opposite
  obtain ⟨lower, upper⟩ := crossing_between wide opposite
  refine ⟨lower, upper, ?_⟩
  obtain ⟨start, slope, onLine⟩ := straight
  have rise : f q - f p = slope * (q - p) := by
    rw [onLine p (le_refl p) wide.le, onLine q wide.le (le_refl q)]
    ring
  rw [rise] at apart
  rw [onLine _ lower.le upper.le, crossing, rise, onLine p (le_refl p) wide.le]
  have steep : slope ≠ 0 := left_ne_zero_of_mul apart
  have width : q - p ≠ 0 := right_ne_zero_of_mul apart
  field_simp
  ring

theorem Straight.eq_crossing (straight : Straight p q f) {x : Rat} (lower : p < x) (upper : x < q)
    (met : f x = level) (notFlat : ¬ (f p = level ∧ f q = level)) :
    (f p - level) * (f q - level) < 0 ∧ x = crossing f level p q := by
  obtain ⟨start, slope, onLine⟩ := straight
  have atP := onLine p (le_refl p) (lower.trans upper).le
  have atQ := onLine q (lower.trans upper).le (le_refl q)
  rw [onLine x lower.le upper.le] at met
  have steep : slope ≠ 0 := by
    rintro rfl
    refine notFlat ⟨?_, ?_⟩ <;> linarith
  have width : q - p ≠ 0 := (sub_pos.mpr (lower.trans upper)).ne'
  constructor
  · have forward := mul_pos (sub_pos.mpr lower) (sub_pos.mpr upper)
    -- Both differences are taken from `x`, where the line meets the level.
    have product : (f p - level) * (f q - level) = -(slope ^ 2 * ((x - p) * (q - x))) := by
      rw [atP, atQ, ← met]
      ring
    rw [product]
    exact neg_neg_of_pos (mul_pos (sq_pos_of_ne_zero steep) forward)
  · have rise : f q - f p = slope * (q - p) := by
      rw [atP, atQ]
      ring
    have reach : level - f p = slope * (x - p) := by
      rw [atP, ← met]
      ring
    rw [crossing, rise, reach, mul_div_mul_left _ _ steep, div_mul_cancel₀ _ width]
    ring

end Crossing

/-- The crossings of an outline, one for each two neighbours on opposite sides of the level. -/
theorem Shape.HasOutline.crossings_eq {shape : Shape Exact} {o : Outline}
    (outline : shape.HasOutline o) (level : Rat) (xs : List Rat) :
    shape.crossings (rat level) (xs.map rat)
      = (((adjacent xs).filter fun pair =>
          (o.height pair.1 - level) * (o.height pair.2 - level) < 0).map fun pair =>
        crossing o.height level pair.1 pair.2).map rat := by
  rw [Shape.crossings, adjacent_map, List.filterMap_map, List.map_map, ← List.filterMap_eq_map,
    List.filterMap_filter]
  refine List.filterMap_congr fun pair _ => ?_
  rw [Function.comp_apply, Prod.map,
    Shape.crossing?_rat (outline.degree pair.1) (outline.degree pair.2)]
  simp only [decide_eq_true_eq, Function.comp_apply, crossing]

/-- An outline that is cut off at a strength. -/
structure Cut where
  outline : Outline
  strength : Rat
  positive : 0 < strength
  atMostOne : strength ≤ 1

namespace Cut

variable (cut : Cut)

def degree (x : Rat) : Rat := min cut.strength (cut.outline.height x)

def corners : Rat × Rat := cut.outline.corners cut.strength

/-- Neither a breakpoint nor a corner lies strictly between `p` and `q`. -/
structure Clear (p q : Rat) : Prop extends Outline.Clear cut.outline p q where
  leftCorner : q ≤ cut.corners.1 ∨ cut.corners.1 ≤ p
  rightCorner : q ≤ cut.corners.2 ∨ cut.corners.2 ≤ p

variable {cut}

theorem corners_within : cut.outline.a ≤ cut.corners.1 ∧ cut.corners.1 ≤ cut.outline.b
    ∧ cut.outline.c ≤ cut.corners.2 ∧ cut.corners.2 ≤ cut.outline.d :=
  and_assoc.mp ⟨cut.outline.leftCorner_within cut.positive.le cut.atMostOne,
    cut.outline.rightCorner_within cut.positive.le cut.atMostOne⟩

theorem ordered : cut.corners.1 ≤ cut.corners.2 := by
  obtain ⟨-, toB, fromC, -⟩ := cut.corners_within
  exact toB.trans (cut.outline.level.trans fromC)

theorem straight_of_clear {p q : Rat} (clear : cut.Clear p q) : Straight p q cut.degree := by
  rcases le_or_gt q p with noWidth | wide
  · exact .of_ge noWidth _
  have straight := Outline.straight_of_clear clear.toClear
  refine straight.min_of_sameSide (le_of_not_gt fun opposite => ?_)
  obtain ⟨lower, upper, met⟩ := straight.crosses wide opposite
  have short : cut.strength < 1 := by
    refine lt_of_le_of_ne cut.atMostOne fun whole => ?_
    rw [whole] at opposite
    have atP := (cut.outline.height_within p).2
    have atQ := (cut.outline.height_within q).2
    exact absurd opposite (not_lt.mpr
      (mul_nonneg_of_nonpos_of_nonpos (by linarith) (by linarith)))
  rcases Outline.eq_corner_of_height cut.positive short met with same | same
  · rw [same] at lower upper
    rcases clear.leftCorner with before | beyond
    · exact absurd upper (not_lt.mpr before)
    · exact absurd lower (not_lt.mpr beyond)
  · rw [same] at lower upper
    rcases clear.rightCorner with before | beyond
    · exact absurd upper (not_lt.mpr before)
    · exact absurd lower (not_lt.mpr beyond)

end Cut

/-- Every breakpoint is on the grid, and where the degree jumps the grid begins or ends. -/
structure Outline.OnGrid (o : Outline) (grid : List Rat) : Prop where
  a : o.a ∈ grid
  b : o.b ∈ grid
  c : o.c ∈ grid
  d : o.d ∈ grid
  left : o.a = o.b → grid.head? = some o.a
  right : o.c = o.d → grid.getLast? = some o.d

theorem Outline.OnGrid.clear {o : Outline} {grid : List Rat} (onGrid : o.OnGrid grid)
    (ascending : grid.Pairwise (· < ·)) {p q : Rat} (neighbours : (p, q) ∈ adjacent grid) :
    o.Clear p q := by
  obtain ⟨atP, atQ⟩ := mem_of_mem_adjacent neighbours
  constructor
  case a => exact outside_of_mem_adjacent ascending neighbours onGrid.a
  case b => exact outside_of_mem_adjacent ascending neighbours onGrid.b
  case c => exact outside_of_mem_adjacent ascending neighbours onGrid.c
  case d => exact outside_of_mem_adjacent ascending neighbours onGrid.d
  case left => exact fun jump => head?_le ascending (onGrid.left jump) atP
  case right => exact fun jump => le_getLast? ascending (onGrid.right jump) atQ

namespace Cut

variable {cut : Cut} {grid : List Rat}

section OnGrid

variable (onGrid : cut.outline.OnGrid grid)

include onGrid

theorem height_of_corner {x : Rat} (corner : cut.outline.IsCorner cut.strength x)
    (offGrid : x ∉ grid) : cut.strength < 1 ∧ cut.outline.height x = cut.strength := by
  rcases Outline.eq_breakpoint_or_height cut.positive.le cut.atMostOne corner with
    rfl | rfl | rfl | rfl | met
  · exact absurd onGrid.a offGrid
  · exact absurd onGrid.b offGrid
  · exact absurd onGrid.c offGrid
  · exact absurd onGrid.d offGrid
  · exact met

/-- Between the positions of the grid the outline crosses the strength in the corners that are not
on it. -/
theorem crosses_iff (ascending : grid.Pairwise (· < ·)) {x : Rat} :
    cut.strength < 1 ∧ (∃ pair ∈ adjacent grid,
        (cut.outline.height pair.1 - cut.strength) * (cut.outline.height pair.2 - cut.strength) < 0
          ∧ x = crossing cut.outline.height cut.strength pair.1 pair.2)
      ↔ cut.outline.IsCorner cut.strength x ∧ x ∉ grid := by
  have straight {p q : Rat} (neighbours : (p, q) ∈ adjacent grid) :
      Straight p q cut.outline.height :=
    Outline.straight_of_clear (onGrid.clear ascending neighbours)
  constructor
  · rintro ⟨short, ⟨p, q⟩, neighbours, opposite, rfl⟩
    have wide := lt_of_mem_adjacent ascending neighbours
    obtain ⟨lower, upper, met⟩ := (straight neighbours).crosses wide opposite
    refine ⟨Outline.eq_corner_of_height cut.positive short met, fun listed => ?_⟩
    rcases outside_of_mem_adjacent ascending neighbours listed with beyond | before
    · exact absurd upper (not_lt.mpr beyond)
    · exact absurd lower (not_lt.mpr before)
  · rintro ⟨corner, offGrid⟩
    obtain ⟨short, met⟩ := height_of_corner onGrid corner offGrid
    obtain ⟨fromA, toD⟩ := Outline.corner_within cut.positive.le cut.atMostOne corner
    obtain ⟨p, q, neighbours, fromP, toQ⟩ :=
      exists_adjacent_between ascending onGrid.a onGrid.d cut.outline.wide fromA toD
    obtain ⟨atP, atQ⟩ := mem_of_mem_adjacent neighbours
    have lower : p < x := fromP.lt_of_ne fun same => offGrid (same ▸ atP)
    have upper : x < q := toQ.lt_of_ne fun same => offGrid (same ▸ atQ)
    -- Of three positions at the level two would be the same corner.
    have notFlat :
        ¬ (cut.outline.height p = cut.strength ∧ cut.outline.height q = cut.strength) := by
      rintro ⟨metP, metQ⟩
      have cornerP := Outline.eq_corner_of_height cut.positive short metP
      have cornerQ := Outline.eq_corner_of_height cut.positive short metQ
      rcases corner with atX | atX <;> rcases cornerP with first | first <;>
        rcases cornerQ with second | second <;> linarith
    exact ⟨short, (p, q), neighbours, (straight neighbours).eq_crossing lower upper met notFlat⟩

end OnGrid
end Cut

end RuleAdvisor.Fuzzy
