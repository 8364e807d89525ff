import Mathlib.Logic.Relation
import RuleAdvisor.Proofs.Fuzzy.Plotting

/-!
What the centroid of a well-formed curve depends on. Samples put in on the lines between neighbours
leave the area and its moment as they are. A shift moves the centroid along, heights that grow in
proportion leave it in its place, and the mirrored curve has it mirrored.
-/

namespace RuleAdvisor.Fuzzy

open Exact

namespace Curve

/-- One more sample strictly between two neighbours, on the line from one to the other. -/
inductive Inserts : Curve Exact → Curve Exact → Prop
  | between (front back : Curve Exact) (left right : Sample Exact) (x : Exact)
      (after : left.position < x) (before : x < right.position) :
      Inserts (front ++ left :: right :: back)
        (front ++ left :: ⟨x, left.degreeTowards right x⟩ :: right :: back)

def shift (curve : Curve Exact) (distance : Exact) : Curve Exact :=
  curve.map fun sample => ⟨sample.position + distance, sample.degree⟩

def scale (curve : Curve Exact) (factor : Exact) : Curve Exact :=
  curve.map fun sample => ⟨sample.position, factor * sample.degree⟩

def mirror (curve : Curve Exact) : Curve Exact :=
  (curve.map fun sample => ⟨-sample.position, sample.degree⟩).reverse

end Curve

section Between

variable {p q x : Rat}

theorem areaTo_chord (wide : p < q) (m n : Rat) :
    areaTo (p, m) (q, n)
      = areaTo (p, m) (x, chord p q m n x) + areaTo (x, chord p q m n x) (q, n) := by
  have width : q - p ≠ 0 := (sub_pos.mpr wide).ne'
  simp only [areaTo, chord]
  field_simp
  ring

theorem momentTo_chord (wide : p < q) (m n : Rat) :
    momentTo (p, m) (q, n)
      = momentTo (p, m) (x, chord p q m n x) + momentTo (x, chord p q m n x) (q, n) := by
  have width : q - p ≠ 0 := (sub_pos.mpr wide).ne'
  simp only [momentTo, chord]
  field_simp
  ring

theorem chord_nonneg (after : p < x) (before : x < q) {m n : Rat} (nonneg : 0 ≤ m)
    (alsoNonneg : 0 ≤ n) : 0 ≤ chord p q m n x := by
  refine div_nonneg (add_nonneg ?_ ?_) (sub_nonneg.mpr (after.trans before).le)
  · exact mul_nonneg (sub_nonneg.mpr before.le) nonneg
  · exact mul_nonneg (sub_nonneg.mpr after.le) alsoNonneg

end Between

namespace Rightward

variable {points : List (Rat × Rat)}

theorem inserted {front back : List (Rat × Rat)} {left middle right : Rat × Rat}
    (rightward : Rightward (front ++ left :: right :: back)) (after : left.1 ≤ middle.1)
    (before : middle.1 ≤ right.1) (nonneg : 0 ≤ middle.2) :
    Rightward (front ++ left :: middle :: right :: back) := by
  constructor
  case ordered =>
    have ordered := rightward.ordered
    simp only [List.pairwise_append, List.pairwise_cons, List.forall_mem_cons] at ordered ⊢
    obtain ⟨atFront, ⟨⟨next, fromLeft⟩, fromRight, atBack⟩, across⟩ := ordered
    refine ⟨atFront, ⟨⟨after, next, fromLeft⟩, ⟨before, ?_⟩, fromRight, atBack⟩, ?_⟩
    · exact fun point listed => before.trans (fromRight point listed)
    · intro point listed
      obtain ⟨toLeft, others⟩ := across point listed
      exact ⟨toLeft, toLeft.trans after, others⟩
  case nonneg =>
    have others := rightward.nonneg
    simp only [List.forall_mem_append, List.forall_mem_cons] at others ⊢
    obtain ⟨atFront, atLeft, atRight, atBack⟩ := others
    exact ⟨atFront, atLeft, nonneg, atRight, atBack⟩

theorem centroid?_plotted (rightward : Rightward points) :
    (plotted points).centroid?
      = if total areaTo points ≤ 0 then none
        else some (rat (total momentTo points / total areaTo points)) := by
  simp only [Curve.centroid?, rightward.mass_plotted, literal_eq, rat_le, Nat.cast_zero]
  split
  · rfl
  · next solid => rw [rat_div _ (not_le.mp solid).ne']

end Rightward

namespace Curve

variable {curve finer : Curve Exact}

theorem plotted_neighbours {points : List (Rat × Rat)} {front back : Curve Exact}
    {left right : Sample Exact} (plot : plotted points = front ++ left :: right :: back) :
    ∃ start p m q n rest, points = start ++ (p, m) :: (q, n) :: rest
      ∧ front = plotted start ∧ left = ⟨rat p, rat m⟩ ∧ right = ⟨rat q, rat n⟩
      ∧ back = plotted rest := by
  obtain ⟨start, tail, rfl, rfl, atTail⟩ := List.map_eq_append_iff.mp plot
  obtain ⟨first, others, rfl, rfl, atOthers⟩ := List.map_eq_cons_iff.mp atTail
  obtain ⟨second, rest, rfl, rfl, rfl⟩ := List.map_eq_cons_iff.mp atOthers
  exact ⟨start, first.1, first.2, second.1, second.2, rest, rfl, rfl, rfl, rfl, rfl⟩

theorem WellFormed.inserted (valid : curve.WellFormed) (inserts : Inserts curve finer) :
    finer.WellFormed ∧ finer.mass = curve.mass := by
  obtain ⟨points, plot, rightward⟩ := valid.exists_points
  obtain ⟨front, back, left, right, x, after, before⟩ := inserts
  obtain ⟨start, p, m, q, n, rest, rfl, rfl, rfl, rfl, rfl⟩ := plotted_neighbours plot.symm
  obtain ⟨x, rfl, -, -⟩ := exists_rat_of_between (le_of_below after) (le_of_below before)
  rw [rat_lt] at after before
  have wide := after.trans before
  obtain ⟨nonneg, alsoNonneg⟩ : 0 ≤ m ∧ 0 ≤ n := by
    have heights := rightward.nonneg
    simp only [List.forall_mem_append, List.forall_mem_cons] at heights
    exact ⟨heights.2.1, heights.2.2.1⟩
  have forward : Rightward (start ++ (p, m) :: (x, chord p q m n x) :: (q, n) :: rest) :=
    rightward.inserted after.le before.le (chord_nonneg after before nonneg alsoNonneg)
  have finerPlot : plotted (start ++ (p, m) :: (x, chord p q m n x) :: (q, n) :: rest)
      = plotted start ++ ⟨rat p, rat m⟩ :: ⟨rat x, rat (chord p q m n x)⟩ :: ⟨rat q, rat n⟩
        :: plotted rest := List.map_append
  rw [degreeTowards_rat wide, plot, ← finerPlot]
  refine ⟨forward.wellFormed, ?_⟩
  rw [forward.mass_plotted, rightward.mass_plotted, total_inserted (areaTo_chord wide m n),
    total_inserted (momentTo_chord wide m n)]

theorem WellFormed.resampled (valid : curve.WellFormed)
    (inserts : Relation.ReflTransGen Inserts curve finer) :
    finer.WellFormed ∧ finer.mass = curve.mass := by
  induction inserts with
  | refl => exact ⟨valid, rfl⟩
  | tail _ last ih =>
      obtain ⟨middleValid, sameMass⟩ := ih
      obtain ⟨finerValid, alsoSame⟩ := middleValid.inserted last
      exact ⟨finerValid, alsoSame.trans sameMass⟩

theorem WellFormed.centroid?_shift (valid : curve.WellFormed) (distance : Rat) :
    (curve.shift (rat distance)).centroid? = curve.centroid?.map (· + rat distance) := by
  obtain ⟨points, rfl, rightward⟩ := valid.exists_points
  have moved : Rightward (points.map fun point => (point.1 + distance, point.2)) := by
    constructor
    case ordered =>
      rw [List.pairwise_map]
      exact rightward.ordered.imp fun ordered => add_le_add_left ordered distance
    case nonneg => exact List.forall_mem_map.mpr rightward.nonneg
  have plot : (plotted points).shift (rat distance)
      = plotted (points.map fun point => (point.1 + distance, point.2)) := by
    simp only [shift, plotted, List.map_map]
    rfl
  have area : total areaTo (points.map fun point => (point.1 + distance, point.2))
      = total areaTo points := by
    refine total_map (fun left right => ?_) points
    simp only [areaTo]
    ring
  -- Moved by the distance, the moment grows by that much for each unit of area.
  have moment : total momentTo (points.map fun point => (point.1 + distance, point.2))
      = total momentTo points + distance * total areaTo points := by
    rw [← total_mul, ← total_add]
    refine total_map (fun left right => ?_) points
    simp only [areaTo, momentTo]
    ring
  rw [plot, moved.centroid?_plotted, rightward.centroid?_plotted, area, moment]
  split
  · rfl
  · next solid =>
      rw [add_div, mul_div_cancel_right₀ _ (not_le.mp solid).ne']
      rfl

theorem WellFormed.centroid?_scale (valid : curve.WellFormed) {factor : Rat}
    (positive : 0 < factor) : (curve.scale (rat factor)).centroid? = curve.centroid? := by
  obtain ⟨points, rfl, rightward⟩ := valid.exists_points
  have stretched : Rightward (points.map fun point => (point.1, factor * point.2)) := by
    constructor
    case ordered =>
      rw [List.pairwise_map]
      exact rightward.ordered
    case nonneg =>
      exact List.forall_mem_map.mpr fun point listed =>
        mul_nonneg positive.le (rightward.nonneg point listed)
  have plot : (plotted points).scale (rat factor)
      = plotted (points.map fun point => (point.1, factor * point.2)) := by
    simp only [scale, plotted, List.map_map]
    rfl
  have area : total areaTo (points.map fun point => (point.1, factor * point.2))
      = factor * total areaTo points := by
    rw [← total_mul]
    refine total_map (fun left right => ?_) points
    simp only [areaTo]
    ring
  have moment : total momentTo (points.map fun point => (point.1, factor * point.2))
      = factor * total momentTo points := by
    rw [← total_mul]
    refine total_map (fun left right => ?_) points
    simp only [momentTo]
    ring
  have empty : factor * total areaTo points ≤ 0 ↔ total areaTo points ≤ 0 := by
    rw [← not_lt, mul_pos_iff_of_pos_left positive, not_lt]
  simp only [plot, stretched.centroid?_plotted, rightward.centroid?_plotted, area, moment, empty,
    mul_div_mul_left _ _ positive.ne']

theorem WellFormed.centroid?_mirror (valid : curve.WellFormed) :
    curve.mirror.centroid? = curve.centroid?.map (- ·) := by
  obtain ⟨points, rfl, rightward⟩ := valid.exists_points
  -- Reflected, the points run from right to left, so they are reversed as well.
  have mirrored : Rightward (points.map fun point => (-point.1, point.2)).reverse := by
    constructor
    case ordered =>
      rw [List.pairwise_reverse, List.pairwise_map]
      exact rightward.ordered.imp neg_le_neg
    case nonneg =>
      simp only [List.mem_reverse, List.forall_mem_map]
      exact rightward.nonneg
  have plot : (plotted points).mirror
      = plotted (points.map fun point => (-point.1, point.2)).reverse := by
    simp only [mirror, plotted, List.map_reverse, List.map_map]
    rfl
  have area : total areaTo (points.map fun point => (-point.1, point.2)).reverse
      = total areaTo points := by
    rw [total_reverse]
    refine total_map (fun left right => ?_) points
    simp only [areaTo]
    ring
  have moment : total momentTo (points.map fun point => (-point.1, point.2)).reverse
      = -1 * total momentTo points := by
    rw [total_reverse, ← total_mul]
    refine total_map (fun left right => ?_) points
    simp only [momentTo]
    ring
  rw [plot, mirrored.centroid?_plotted, rightward.centroid?_plotted, area, moment]
  split
  · rfl
  · rw [neg_one_mul, neg_div]
    rfl

/-- The centroid of a well-formed curve stays if samples are put in on the lines between neighbours,
moves along with the positions, stays if all degrees grow by one factor, and is mirrored with the
curve. -/
theorem WellFormed.centroid?_unchanged (valid : curve.WellFormed) :
    (∀ finer, Relation.ReflTransGen Inserts curve finer → finer.centroid? = curve.centroid?)
      ∧ (∀ distance : Rat,
        (curve.shift (rat distance)).centroid? = curve.centroid?.map (· + rat distance))
      ∧ (∀ factor : Rat, 0 < factor →
        (curve.scale (rat factor)).centroid? = curve.centroid?)
      ∧ curve.mirror.centroid? = curve.centroid?.map (- ·) := by
  refine ⟨fun finer inserts => ?_, valid.centroid?_shift, fun _ => valid.centroid?_scale,
    valid.centroid?_mirror⟩
  obtain ⟨-, same⟩ := valid.resampled inserts
  simp only [centroid?, same]

def ramp : List (Rat × Rat) := [(0, 0), (3, 1)]

/-- A sample at 2 on the ramp leaves its centroid there. -/
theorem centroid?_unchanged_ramp :
    (plotted ramp).WellFormed
      ∧ Relation.ReflTransGen Inserts (plotted ramp) (plotted [(0, 0), (2, 2 / 3), (3, 1)])
      ∧ (plotted [(0, 0), (2, 2 / 3), (3, 1)]).centroid? = some (rat 2)
      ∧ ((plotted ramp).shift (rat 5)).centroid? = some (rat 7)
      ∧ (0 : Rat) < 4 ∧ ((plotted ramp).scale (rat 4)).centroid? = some (rat 2)
      ∧ (plotted ramp).mirror.centroid? = some (rat (-2)) := by
  have rightward : Rightward ramp := by
    constructor
    case ordered => decide +kernel
    case nonneg => decide +kernel
  have onRamp : Sample.degreeTowards (⟨rat 0, rat 0⟩ : Sample Exact) ⟨rat 3, rat 1⟩ (rat 2)
      = rat (2 / 3) := by decide +kernel
  have inserts : Inserts (plotted ramp) (plotted [(0, 0), (2, 2 / 3), (3, 1)]) := by
    have between := Inserts.between [] [] ⟨rat 0, rat 0⟩ ⟨rat 3, rat 1⟩ (rat 2) (by decide +kernel)
      (by decide +kernel)
    rwa [onRamp] at between
  have found : (plotted ramp).centroid? = some (rat 2) := by decide +kernel
  obtain ⟨finer, shifted, scaled, mirrored⟩ := rightward.wellFormed.centroid?_unchanged
  refine ⟨rightward.wellFormed, .single inserts, ?_, ?_, by norm_num, ?_, ?_⟩
  · rw [finer _ (.single inserts), found]
  · rw [shifted, found]
    decide +kernel
  · rw [scaled 4 (by norm_num), found]
  · rw [mirrored, found]
    decide +kernel

end Curve
end RuleAdvisor.Fuzzy
