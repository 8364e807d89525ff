import RuleAdvisor.Proofs.Fuzzy.Joining
import RuleAdvisor.Proofs.Fuzzy.Merging

/-!
What the joined curve depends on. Only the conclusions that fired count, each with its strength, and
neither their order nor how often one of them is listed makes a difference: the corners they bend
the curve at are the same positions and are merged alike, and the greatest degree is the same
whichever comes first.
-/

namespace RuleAdvisor.Fuzzy

open Exact

/-- Rational or no number at all, but no infinity. -/
def Settled (x : Exact) : Prop := x = nan ∨ ∃ q, x = rat q

theorem settled_zero : Settled 0 := .inr ⟨0, literal_eq 0⟩

theorem settled_one : Settled 1 := .inr ⟨1, literal_eq 1⟩

theorem settled_div {x y : Exact} (proper : ∀ q, y = rat q → q ≠ 0 ∧ ∃ p, x = rat p) :
    Settled (x / y) := by
  cases y with
  | rat q =>
      obtain ⟨nonzero, p, rfl⟩ := proper q rfl
      exact .inr ⟨p / q, rat_div p nonzero⟩
  | posInf | negInf =>
      cases x with
      | rat p => exact .inr ⟨0, rfl⟩
      | _ => exact .inl rfl
  | nan => cases x <;> exact .inl rfl

theorem eq_rat_of_sub {x y : Exact} {r : Rat} (difference : x - y = rat r) :
    ∃ p q, x = rat p ∧ y = rat q ∧ p - q = r := by
  cases x with
  | rat p =>
      cases y with
      | rat q =>
          rw [rat_sub, rat.injEq] at difference
          exact ⟨p, q, rfl, rfl, difference⟩
      | _ => cases difference
  | _ => cases y <;> cases difference

theorem rising_settled {a b : Exact} {x : Rat} (inside : ¬ rat x < a) (rising : rat x < b) :
    Settled ((rat x - a) / (b - a)) := by
  apply settled_div
  intro r width
  obtain ⟨q, p, rfl, rfl, rfl⟩ := eq_rat_of_sub width
  rw [rat_lt] at inside rising
  exact ⟨sub_ne_zero.mpr (by linarith), x - p, rat_sub x p⟩

theorem falling_settled {c d : Exact} {x : Rat} (inside : ¬ d < rat x)
    (falling : ¬ rat x ≤ c) : Settled ((d - rat x) / (d - c)) := by
  apply settled_div
  intro r width
  obtain ⟨q, p, rfl, rfl, rfl⟩ := eq_rat_of_sub width
  rw [rat_lt] at inside
  rw [rat_le] at falling
  exact ⟨sub_ne_zero.mpr (by linarith), q - x, rat_sub q x⟩

/-- Where the second breakpoint is no number, the top has no start, and what lies before its end
would count as falling. -/
theorem trapezoid_settled {a b c d : Exact} (lacking : b = nan → c = nan) (x : Rat) :
    Settled (trapezoid a b c d (rat x)) := by
  unfold trapezoid
  split
  · exact settled_zero
  · next inside =>
      rw [not_or] at inside
      split
      · exact settled_one
      · next outsideTop =>
          split
          · next rising => exact rising_settled inside.1 rising
          · next falling =>
              apply falling_settled inside.2
              intro reached
              by_cases start : b = nan
              · rw [lacking start] at reached
                exact Bool.false_ne_true reached
              · exact outsideTop ⟨le_of_not_lt start (by simp) falling, reached⟩

theorem triangle_settled (a b c : Exact) (x : Rat) : Settled (triangle a b c (rat x)) := by
  rw [triangle_eq_trapezoid beq_iff_le]
  exact trapezoid_settled id x

/-- All breakpoints that are there are numbers, be they as many as they may, finite or not, and in
any order. -/
def Shape.Numeric (shape : Shape Exact) : Prop := ∀ point ∈ shape.points, point ≠ nan

theorem Shape.Numeric.degree_settled {shape : Shape Exact} (numeric : shape.Numeric) (x : Rat) :
    Settled (shape.degree (rat x)) := by
  obtain ⟨kind, points⟩ := shape
  cases kind with
  | triangular => exact triangle_settled _ _ _ x
  | trapezoidal =>
      apply trapezoid_settled
      intro lacking
      match points with
      | [] | [_] => rfl
      | _ :: second :: _ => exact absurd lacking (numeric second (by simp))

theorem nan_sub (x : Exact) : nan - x = nan := by
  cases x <;> rfl

theorem not_nan_mul_neg (x : Exact) : ¬ nan * x < 0 := by
  have product : nan * x = nan := by cases x <;> rfl
  rw [product]
  exact Bool.false_ne_true

theorem not_mul_nan_neg (x : Exact) : ¬ x * nan < 0 := by
  have product : x * nan = nan := by cases x <;> rfl
  rw [product]
  exact Bool.false_ne_true

theorem Shape.Numeric.crossing?_rational {shape : Shape Exact} (numeric : shape.Numeric)
    {level p q : Rat} {x : Exact} (found : shape.crossing? (rat level) (rat p, rat q) = some x) :
    ∃ r, x = rat r := by
  rcases numeric.degree_settled p with atFirst | ⟨m, atFirst⟩
  · simp only [Shape.crossing?, atFirst, nan_sub, if_neg (not_nan_mul_neg _)] at found
    cases found
  · rcases numeric.degree_settled q with atSecond | ⟨n, atSecond⟩
    · simp only [Shape.crossing?, atSecond, nan_sub, if_neg (not_mul_nan_neg _)] at found
      cases found
    · rw [Shape.crossing?_rat atFirst atSecond] at found
      split at found
      · cases found
        exact ⟨_, rfl⟩
      · cases found

theorem Shape.Numeric.crossings_rational {shape : Shape Exact} (numeric : shape.Numeric)
    {level : Rat} {grid : List Exact} (onGrid : ∀ x ∈ grid, ∃ q, x = rat q) :
    ∀ x ∈ shape.crossings (rat level) grid, ∃ q, x = rat q := by
  intro x member
  obtain ⟨⟨left, right⟩, neighbours, found⟩ := List.mem_filterMap.mp member
  obtain ⟨first, second⟩ := mem_of_mem_adjacent neighbours
  obtain ⟨p, rfl⟩ := onGrid left first
  obtain ⟨q, rfl⟩ := onGrid right second
  exact numeric.crossing?_rational found

theorem samples_eq_nil {domain : Domain Exact} {step : Exact}
    (endless : domain.greatest - domain.least = posInf) (positive : 0 < step) :
    domain.samples step = [] := by
  simp only [Domain.samples, Domain.samples?, endless, tolerance_eq]
  cases step with
  | rat q =>
      have forward : ¬ q < 0 := not_lt.mpr ((rat_pos q).mp positive).le
      have quotient : posInf / rat q = posInf := if_neg forward
      rw [quotient]
      rfl
  | _ => rfl

theorem samples_rational {domain : Domain Exact} {step : Exact}
    (ordered : domain.least < domain.greatest) (positive : 0 < step)
    (fits : step ≤ domain.greatest - domain.least) :
    ∀ x ∈ domain.samples step, ∃ q, x = rat q := by
  obtain ⟨low, high⟩ := domain
  -- A domain with an infinite end has no grid; all others have a rational step.
  by_cases endless : high - low = posInf
  · rw [samples_eq_nil endless positive]
    simp
  · cases low with
    | rat least =>
        cases high with
        | rat greatest =>
            rw [literal_eq, Nat.cast_zero] at positive
            obtain ⟨q, rfl, _⟩ := exists_rat_of_between (le_of_below positive) fits
            intro x member
            exact (samples_within ((rat_lt _ _).mp ordered) ((rat_lt _ _).mp positive)
              x member).exists_rat
        | posInf => exact absurd rfl endless
        | _ => exact absurd ordered Bool.false_ne_true
    | negInf => cases high <;> first | exact absurd rfl endless | cases ordered
    | _ => cases high <;> cases ordered

section Greatest

variable {β : Type} (height : β → Exact)

/-- The greatest of a start and some heights is the start or one of the heights, and it is below
none of them. A height that is no number is not above anything and is passed over. -/
theorem greatest_spec {start : Exact} (number : start ≠ nan) (xs : List β) :
    let greatest := xs.foldl (fun best x => if best < height x then height x else best) start
    greatest ≠ nan ∧ (¬ greatest < start ∧ ∀ x ∈ xs, ¬ greatest < height x)
      ∧ (greatest = start ∨ ∃ x ∈ xs, greatest = height x) := by
  -- What is best so far is a number from the start on, so everything that is a number compares
  -- with it.
  induction xs generalizing start with
  | nil => simpa using ⟨number, not_lt_self start⟩
  | cons x rest ih =>
      rw [List.foldl_cons]
      by_cases raised : start < height x
      · rw [if_pos raised]
        obtain ⟨isNumber, ⟨notBelow, notBelowRest⟩, taken⟩ := ih (ne_nan_of_lt raised).2
        refine ⟨isNumber, ⟨?_, ?_⟩, ?_⟩
        · intro below
          rcases lt_or_lt_of_lt (ne_nan_of_lt raised).2 below with belowHeight | above
          · exact notBelow belowHeight
          · exact not_lt_of_lt raised above
        · exact List.forall_mem_cons.mpr ⟨notBelow, notBelowRest⟩
        · rw [List.exists_mem_cons_iff]
          exact .inr taken
      · rw [if_neg raised]
        obtain ⟨isNumber, ⟨notBelow, notBelowRest⟩, taken⟩ := ih number
        refine ⟨isNumber, ⟨notBelow, List.forall_mem_cons.mpr ⟨?_, notBelowRest⟩⟩, ?_⟩
        · intro below
          rcases lt_or_lt_of_lt number below with belowStart | above
          · exact notBelow belowStart
          · exact raised above
        · rw [List.exists_mem_cons_iff]
          exact taken.imp_right .inr

theorem greatest_congr {start : Exact} (number : start ≠ nan) {xs ys : List β}
    (same : ∀ x, x ∈ xs ↔ x ∈ ys) :
    xs.foldl (fun best x => if best < height x then height x else best) start
      = ys.foldl (fun best x => if best < height x then height x else best) start := by
  obtain ⟨isNumber, ⟨least, above⟩, taken⟩ := greatest_spec height number xs
  obtain ⟨otherNumber, ⟨otherLeast, otherAbove⟩, otherTaken⟩ := greatest_spec height number ys
  apply eq_of_not_lt isNumber otherNumber
  · rcases otherTaken with atStart | ⟨y, member, atY⟩
    · rwa [atStart]
    · rw [atY]
      exact above y ((same y).mpr member)
  · rcases taken with atStart | ⟨x, member, atX⟩
    · rwa [atStart]
    · rw [atX]
      exact otherAbove x ((same x).mp member)

end Greatest

theorem zero_ne_nan : (0 : Exact) ≠ nan := by
  rw [literal_eq]
  exact Exact.noConfusion

theorem joinedDegree_spec (clips : List (Clip Exact)) (x : Exact) :
    Output.joinedDegree clips x ≠ nan
      ∧ (∀ clip ∈ clips, ¬ Output.joinedDegree clips x
        < Number.least clip.strength (clip.shape.degree x))
      ∧ (Output.joinedDegree clips x = 0
        ∨ ∃ clip ∈ clips, Output.joinedDegree clips x
          = Number.least clip.strength (clip.shape.degree x)) := by
  obtain ⟨number, ⟨-, above⟩, taken⟩ := greatest_spec
    (fun clip : Clip Exact => Number.least clip.strength (clip.shape.degree x)) zero_ne_nan clips
  exact ⟨number, above, taken⟩

theorem joinedDegree_congr {clips others : List (Clip Exact)}
    (same : ∀ clip, clip ∈ clips ↔ clip ∈ others) (x : Exact) :
    Output.joinedDegree clips x = Output.joinedDegree others x := by
  apply greatest_congr (fun clip : Clip Exact => Number.least clip.strength (clip.shape.degree x))
  · exact zero_ne_nan
  · exact same

/-- What sampling relies on: a domain with a grid on it, and breakpoints that are numbers. -/
structure Output.Samplable (output : Output Exact) : Prop where
  ordered : output.domain.least < output.domain.greatest
  resolutionPositive : 0 < output.resolution
  resolutionFits : output.resolution ≤ output.domain.greatest - output.domain.least
  /-- Otherwise a corner may be no number, and sorting then depends on where it was listed. -/
  numeric : ∀ entry ∈ output.categories.entries, entry.2.Numeric

namespace Output

variable {output : Output Exact} {activations others : List (Activation Exact)}

namespace Samplable

variable (samplable : output.Samplable)

include samplable

theorem onGrid : ∀ x ∈ output.domain.samples output.resolution, ∃ q, x = rat q :=
  samples_rational samplable.ordered samplable.resolutionPositive samplable.resolutionFits

theorem bends_rational {activation : Activation Exact} {x : Exact}
    (bends : output.Bends (output.domain.samples output.resolution) activation x) :
    ∃ q, x = rat q := by
  obtain ⟨⟨above, below⟩, shape, named, crossed⟩ := bends
  rw [literal_eq] at above below
  obtain ⟨level, strength, _⟩ := exists_rat_of_between (le_of_below above) (le_of_below below)
  rw [strength] at crossed
  have listed := (Record.get?_eq_some_iff _ _ _).mp (shapeOf_eq_ok_iff.mp named)
  exact (samplable.numeric _ listed).crossings_rational samplable.onGrid x crossed

/-- The curve depends on what fired, and on nothing else. -/
theorem curveOf_of_same_fired
    (same : ∀ activation, activation ∈ firedOf activations ↔ activation ∈ firedOf others)
    {curve : Curve Exact} (joined : output.curveOf activations = .ok curve) :
    output.curveOf others = .ok curve := by
  obtain ⟨ends, named⟩ := exists_curveOf_iff.mp ⟨curve, joined⟩
  obtain ⟨other, otherJoined⟩ := exists_curveOf_iff.mpr
    ⟨ends, fun activation fired => named activation ((same activation).mpr fired)⟩
  rw [otherJoined, Except.ok.injEq]
  -- Both curves are made of the same corners and the same clips, each listed in its own order.
  obtain ⟨-, _, clips, ⟨corners, cornersFound, rfl⟩, clipsFound, rfl⟩ :=
    curveOf_eq_ok_iff.mp joined
  obtain ⟨-, _, otherClips, ⟨otherCorners, otherCornersFound, rfl⟩, otherClipsFound, rfl⟩ :=
    curveOf_eq_ok_iff.mp otherJoined
  have sameCorners (x : Exact) : x ∈ otherCorners.flatten ↔ x ∈ corners.flatten := by
    rw [mem_allCorners_iff otherCornersFound, mem_allCorners_iff cornersFound]
    simp only [same]
  have sameClips (clip : Clip Exact) : clip ∈ otherClips ↔ clip ∈ clips := by
    rw [mem_clips_iff otherClipsFound, mem_clips_iff clipsFound]
    simp only [same]
  have rational : ∀ x ∈ otherCorners.flatten, ∃ q, x = rat q := by
    intro x member
    obtain ⟨activation, _, bends⟩ := (mem_allCorners_iff otherCornersFound x).mp member
    exact samplable.bends_rational bends
  rw [mergePositions_congr samplable.onGrid rational sameCorners]
  apply List.map_congr_left
  intro x _
  rw [joinedDegree_congr sameClips]

theorem curveOf_congr
    (same : ∀ activation, activation ∈ firedOf activations ↔ activation ∈ firedOf others)
    (curve : Curve Exact) :
    output.curveOf activations = .ok curve ↔ output.curveOf others = .ok curve :=
  ⟨samplable.curveOf_of_same_fired same,
    samplable.curveOf_of_same_fired fun activation => (same activation).symm⟩

end Samplable

theorem WellFormed.samplable (valid : output.WellFormed) : output.Samplable where
  ordered := valid.variableWellFormed.domain.ordered
  resolutionPositive := valid.resolutionPositive
  resolutionFits := valid.resolutionFits
  numeric := by
    intro entry listed point member lacking
    have finite := (valid.variableWellFormed.shapes entry listed).finite point member
    rw [lacking] at finite
    cases finite

end Output

/-- The activations in another order, with some of them repeated and with others of strength 0 put
in, whatever these conclude, any number of times. -/
inductive Rearranged (activations : List (Activation Exact)) : List (Activation Exact) → Prop where
  | same : Rearranged activations activations
  | permuted {others next : List (Activation Exact)} :
      Rearranged activations others → others.Perm next → Rearranged activations next
  | repeated {others : List (Activation Exact)} {activation : Activation Exact} :
      Rearranged activations others → activation ∈ others →
        Rearranged activations (activation :: others)
  | idle {others : List (Activation Exact)} {activation : Activation Exact} :
      Rearranged activations others → activation.strength = 0 →
        Rearranged activations (activation :: others)

theorem Rearranged.mem_firedOf_iff {activations others : List (Activation Exact)}
    (rearranged : Rearranged activations others) (activation : Activation Exact) :
    activation ∈ firedOf activations ↔ activation ∈ firedOf others := by
  induction rearranged with
  | same => rfl
  | permuted _ order ih => rw [ih, mem_firedOf, mem_firedOf, order.mem_iff]
  | repeated _ listed ih =>
      rw [ih, mem_firedOf, mem_firedOf, List.mem_cons]
      grind
  | idle _ unfired ih =>
      rw [ih, mem_firedOf, mem_firedOf, List.mem_cons]
      have nothing : (0 : Exact) ≤ 0 := by simp
      grind

end RuleAdvisor.Fuzzy
