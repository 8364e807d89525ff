import Mathlib.Algebra.BigOperators.Ring.List
import Mathlib.Data.Set.List
import RuleAdvisor.Proofs.Fuzzy.Tracing

/-!
Curves through points with rational coordinates that go from left to right and nowhere below 0. The
mass below such a curve is a sum over neighbouring points, in which each pair has a share of the
area and of the moment that is a polynomial in the coordinates.
-/

namespace RuleAdvisor.Fuzzy

open Exact

def total {β : Type} (share : β → β → Rat) (xs : List β) : Rat :=
  ((adjacent xs).map fun pair => share pair.1 pair.2).sum

section Total

variable {β γ : Type} {share : β → β → Rat}

theorem total_cons_cons (x y : β) (rest : List β) :
    total share (x :: y :: rest) = share x y + total share (y :: rest) := List.sum_cons

theorem total_append (front back : List β) (x : β) :
    total share (front ++ x :: back) = total share (front ++ [x]) + total share (x :: back) := by
  induction front with
  | nil => exact (zero_add _).symm
  | cons first rest ih =>
      cases rest with
      | nil =>
          have alone : total share [first, x] = share first x := add_zero _
          rw [List.cons_append, List.nil_append, total_cons_cons, List.cons_append,
            List.nil_append, alone]
      | cons second later =>
          simp only [List.cons_append, total_cons_cons] at ih ⊢
          rw [ih, add_assoc]

theorem total_map {other : γ → γ → Rat} {f : γ → β}
    (same : ∀ x y, share (f x) (f y) = other x y) (xs : List γ) :
    total share (xs.map f) = total other xs := by
  rw [total, adjacent_map, List.map_map, total]
  congr 1
  exact List.map_congr_left fun pair _ => same pair.1 pair.2

theorem total_reverse (xs : List β) :
    total share xs.reverse = total (fun x y => share y x) xs := by
  induction xs with
  | nil => rfl
  | cons x rest ih =>
      cases rest with
      | nil => rfl
      | cons y later =>
          rw [List.reverse_cons] at ih
          rw [List.reverse_cons, List.reverse_cons, List.append_assoc, List.singleton_append,
            total_append, ih, total_cons_cons, total_cons_cons, add_comm]
          congr 1
          exact add_zero _

theorem total_add (other : β → β → Rat) (xs : List β) :
    total (fun x y => share x y + other x y) xs = total share xs + total other xs :=
  List.sum_map_add

theorem total_mul (factor : Rat) (xs : List β) :
    total (fun x y => factor * share x y) xs = factor * total share xs :=
  List.sum_map_mul_left _ _ _

/-- What is put in between two neighbours changes nothing, if their share is the sum of the two it
is split into. -/
theorem total_inserted {left middle right : β}
    (splits : share left right = share left middle + share middle right) (front back : List β) :
    total share (front ++ left :: middle :: right :: back)
      = total share (front ++ left :: right :: back) := by
  rw [total_append, total_append front (right :: back), total_cons_cons, total_cons_cons,
    total_cons_cons, splits, add_assoc (share left middle)]

end Total

def areaTo (left right : Rat × Rat) : Rat := (right.1 - left.1) * (left.2 + right.2) / 2

def momentTo (left right : Rat × Rat) : Rat :=
  (right.1 - left.1) * (left.2 * (2 * left.1 + right.1) + right.2 * (left.1 + 2 * right.1)) / 6

/-- From left to right, and nowhere below 0. -/
structure Rightward (points : List (Rat × Rat)) : Prop where
  ordered : points.Pairwise fun left right => left.1 ≤ right.1
  nonneg : ∀ point ∈ points, 0 ≤ point.2

theorem Mass.below_polynomial {p q m n : Rat} (forward : p ≤ q) (nonneg : 0 ≤ m)
    (alsoNonneg : 0 ≤ n) :
    Mass.below (⟨rat p, rat m⟩ : Sample Exact) ⟨rat q, rat n⟩
      = ⟨rat (areaTo (p, m) (q, n)), rat (momentTo (p, m) (q, n))⟩ := by
  rw [Mass.below_rat nonneg alsoNonneg]
  split
  · next invisible =>
      rcases invisible with narrow | ⟨rfl, rfl⟩
      · rw [le_antisymm narrow forward]
        simp [Mass.zero_eq, areaTo, momentTo]
      · simp [Mass.zero_eq, areaTo, momentTo]
  · next visible =>
      have height := (Mass.height_pos nonneg alsoNonneg (not_or.mp visible).2).ne'
      rw [Mass.mk.injEq, rat.injEq, rat.injEq]
      constructor
      · simp only [areaTo]
        ring
      · simp only [momentTo]
        field_simp
        ring

def plotted (points : List (Rat × Rat)) : Curve Exact :=
  points.map fun point => ⟨rat point.1, rat point.2⟩

theorem adjacent_plotted (points : List (Rat × Rat)) :
    adjacent (plotted points) = (adjacent points).map fun pair =>
      (⟨rat pair.1.1, rat pair.1.2⟩, ⟨rat pair.2.1, rat pair.2.2⟩) :=
  adjacent_map _ points

namespace Rightward

variable {points : List (Rat × Rat)}

theorem neighbours (rightward : Rightward points) {pair : (Rat × Rat) × (Rat × Rat)}
    (member : pair ∈ adjacent points) : pair.1.1 ≤ pair.2.1 ∧ 0 ≤ pair.1.2 ∧ 0 ≤ pair.2.2 := by
  obtain ⟨first, second⟩ := mem_of_mem_adjacent member
  exact ⟨rel_of_mem_adjacent rightward.ordered.isChain member, rightward.nonneg _ first,
    rightward.nonneg _ second⟩

theorem foldl_below {pairs : List ((Rat × Rat) × (Rat × Rat))}
    (each : ∀ pair ∈ pairs, pair.1.1 ≤ pair.2.1 ∧ 0 ≤ pair.1.2 ∧ 0 ≤ pair.2.2)
    (area moment : Rat) :
    (pairs.map fun pair => ((⟨rat pair.1.1, rat pair.1.2⟩, ⟨rat pair.2.1, rat pair.2.2⟩) :
        Sample Exact × Sample Exact)).foldl
      (fun (mass : Mass Exact) pair => mass.add (Mass.below pair.1 pair.2)) ⟨rat area, rat moment⟩
      = ⟨rat (area + (pairs.map fun pair => areaTo pair.1 pair.2).sum),
        rat (moment + (pairs.map fun pair => momentTo pair.1 pair.2).sum)⟩ := by
  induction pairs generalizing area moment with
  | nil => simp
  | cons pair rest ih =>
      obtain ⟨forward, nonneg, alsoNonneg⟩ := each pair List.mem_cons_self
      have first : (⟨rat area, rat moment⟩ : Mass Exact).add
            (Mass.below ⟨rat pair.1.1, rat pair.1.2⟩ ⟨rat pair.2.1, rat pair.2.2⟩)
          = ⟨rat (area + areaTo pair.1 pair.2), rat (moment + momentTo pair.1 pair.2)⟩ := by
        rw [Mass.below_polynomial forward nonneg alsoNonneg]
        rfl
      rw [List.map_cons, List.foldl_cons, first,
        ih fun other member => each other (List.mem_cons_of_mem _ member), add_assoc, add_assoc]
      rfl

theorem mass_plotted (rightward : Rightward points) :
    (plotted points).mass = ⟨rat (total areaTo points), rat (total momentTo points)⟩ := by
  rw [Curve.mass, adjacent_plotted, Mass.zero_eq, foldl_below fun pair => rightward.neighbours,
    zero_add, zero_add]
  rfl

end Rightward

/-- A curve as it is to be: finite, its positions in ascending order, and nowhere below 0. -/
structure Curve.WellFormed (curve : Curve Exact) : Prop where
  finite : ∀ sample ∈ curve,
    Number.isFinite sample.position = true ∧ Number.isFinite sample.degree = true
  ascending : curve.positions.Pairwise (· ≤ ·)
  nonneg : ∀ sample ∈ curve, 0 ≤ sample.degree

theorem Rightward.wellFormed {points : List (Rat × Rat)} (rightward : Rightward points) :
    (plotted points).WellFormed := by
  constructor
  case finite =>
    intro sample member
    obtain ⟨point, _, rfl⟩ := List.mem_map.mp member
    exact ⟨rfl, rfl⟩
  case ascending =>
    rw [Curve.positions, plotted, List.map_map, List.pairwise_map]
    exact rightward.ordered.imp (rat_le _ _).mpr
  case nonneg =>
    intro sample member
    obtain ⟨point, listed, rfl⟩ := List.mem_map.mp member
    rw [literal_eq, rat_le, Nat.cast_zero]
    exact rightward.nonneg point listed

theorem Curve.WellFormed.exists_points {curve : Curve Exact} (valid : curve.WellFormed) :
    ∃ points, curve = plotted points ∧ Rightward points := by
  have rational : curve ∈ Set.range plotted := by
    unfold plotted
    rw [Set.range_list_map]
    intro sample member
    obtain ⟨position, degree⟩ := valid.finite sample member
    obtain ⟨p, atPosition⟩ := (isFinite_iff _).mp position
    obtain ⟨m, atDegree⟩ := (isFinite_iff _).mp degree
    refine ⟨(p, m), ?_⟩
    dsimp only
    rw [← atPosition, ← atDegree]
  obtain ⟨points, rfl⟩ := rational
  refine ⟨points, rfl, ?_, ?_⟩
  · have ascending := valid.ascending
    rw [Curve.positions, plotted, List.map_map, List.pairwise_map] at ascending
    exact ascending.imp (rat_le _ _).mp
  · intro point listed
    have nonneg := valid.nonneg _ (List.mem_map_of_mem listed)
    rwa [literal_eq, rat_le, Nat.cast_zero] at nonneg

end RuleAdvisor.Fuzzy
