import Mathlib.Data.Set.Finite.Lemmas
import RuleAdvisor.Proofs.Fuzzy.Plotting

/-!
Where the centroid of a well-formed curve lies. Neighbours without width and neighbours without
height add nothing to the mass, so they neither give the curve a centroid nor widen the positions it
lies between: there is one exactly if some neighbours have both, and it lies strictly between the
first and the last position of such neighbours.
-/

namespace RuleAdvisor.Fuzzy

open Exact

/-- Neighbours with both width and height. -/
def Solid (left right : Sample Exact) : Prop :=
  left.position < right.position ∧ (0 < left.degree ∨ 0 < right.degree)

/-- One of two solid neighbours is at the position. -/
def Curve.Supports (curve : Curve Exact) (x : Exact) : Prop :=
  ∃ pair ∈ adjacent curve, Solid pair.1 pair.2 ∧ (x = pair.1.position ∨ x = pair.2.position)

/-- Neighbours on a well-formed curve. -/
structure Neighbouring (left right : Sample Exact) (p m q n : Rat) : Prop where
  first : left = ⟨rat p, rat m⟩
  second : right = ⟨rat q, rat n⟩
  forward : p ≤ q
  nonneg : 0 ≤ m
  alsoNonneg : 0 ≤ n

namespace Neighbouring

variable {left right : Sample Exact} {p m q n : Rat}

theorem solid_iff (neighbours : Neighbouring left right p m q n) :
    Solid left right ↔ p < q ∧ 0 < m + n := by
  obtain ⟨rfl, rfl, -, nonneg, alsoNonneg⟩ := neighbours
  rw [Solid, rat_lt, rat_pos, rat_pos, Mass.add_pos_iff_of_nonneg nonneg alsoNonneg]

theorem below_area_pos_iff (neighbours : Neighbouring left right p m q n) :
    0 < (Mass.below left right).area ↔ Solid left right := by
  obtain ⟨rfl, rfl, -, nonneg, alsoNonneg⟩ := neighbours
  rw [Mass.below_area_pos_rat nonneg alsoNonneg, Solid, rat_lt, rat_pos, rat_pos]

theorem not_solid_iff (neighbours : Neighbouring left right p m q n) :
    ¬ Solid left right ↔ (left.position ≠ right.position → left.degree = 0 ∧ right.degree = 0) := by
  rw [neighbours.solid_iff]
  obtain ⟨rfl, rfl, forward, nonneg, alsoNonneg⟩ := neighbours
  simp only [literal_eq, ne_eq, rat.injEq, Nat.cast_zero]
  rw [← add_eq_zero_iff_of_nonneg nonneg alsoNonneg, not_and, not_lt,
    (add_nonneg nonneg alsoNonneg).ge_iff_eq', forward.lt_iff_ne]

end Neighbouring

namespace Curve

variable {curve : Curve Exact}

theorem WellFormed.exists_neighbouring (valid : curve.WellFormed)
    {pair : Sample Exact × Sample Exact} (member : pair ∈ adjacent curve) :
    ∃ p m q n, Neighbouring pair.1 pair.2 p m q n := by
  obtain ⟨points, rfl, rightward⟩ := valid.exists_points
  rw [adjacent_plotted] at member
  obtain ⟨⟨⟨p, m⟩, q, n⟩, listed, rfl⟩ := List.mem_map.mp member
  obtain ⟨forward, nonneg, alsoNonneg⟩ := rightward.neighbours listed
  exact ⟨p, m, q, n, rfl, rfl, forward, nonneg, alsoNonneg⟩

theorem WellFormed.exists_rat_of_supports (valid : curve.WellFormed) {x : Exact}
    (supports : curve.Supports x) : ∃ q, x = rat q ∧ x ∈ curve.positions := by
  obtain ⟨pair, member, -, atEnd⟩ := supports
  obtain ⟨first, second⟩ := mem_of_mem_adjacent member
  obtain ⟨p, m, q, n, neighbours⟩ := valid.exists_neighbouring member
  rcases atEnd with rfl | rfl
  · exact ⟨p, by rw [neighbours.first], List.mem_map_of_mem first⟩
  · exact ⟨q, by rw [neighbours.second], List.mem_map_of_mem second⟩

/-- The solid neighbours lie between two bounds, and reach both if there are any. -/
theorem WellFormed.exists_extremes (valid : curve.WellFormed) :
    ∃ least greatest, (∀ x, curve.Supports x → rat least ≤ x ∧ x ≤ rat greatest)
      ∧ ((∃ x, curve.Supports x) → curve.Supports (rat least) ∧ curve.Supports (rat greatest)) := by
  by_cases supported : ∃ x, curve.Supports x
  · have listed : {x | curve.Supports x}.Finite := by
      refine (List.finite_toSet curve.positions).subset ?_
      intro x supports
      obtain ⟨-, -, atPosition⟩ := valid.exists_rat_of_supports supports
      exact atPosition
    have injective : Function.Injective rat := fun _ _ => rat.inj
    have finite : (Set.preimage rat {x | curve.Supports x}).Finite :=
      listed.preimage injective.injOn
    have nonempty : (Set.preimage rat {x | curve.Supports x}).Nonempty := by
      obtain ⟨x, supports⟩ := supported
      obtain ⟨q, rfl, -⟩ := valid.exists_rat_of_supports supports
      exact ⟨q, supports⟩
    obtain ⟨least, atLeast, lower⟩ := Set.exists_min_image _ id finite nonempty
    obtain ⟨greatest, atGreatest, upper⟩ := Set.exists_max_image _ id finite nonempty
    refine ⟨least, greatest, fun x supports => ?_, fun _ => ⟨atLeast, atGreatest⟩⟩
    obtain ⟨q, rfl, -⟩ := valid.exists_rat_of_supports supports
    exact ⟨(rat_le _ _).mpr (lower q supports), (rat_le _ _).mpr (upper q supports)⟩
  · refine ⟨0, 0, fun x supports => ?_, fun any => absurd any supported⟩
    exact absurd ⟨x, supports⟩ supported

theorem WellFormed.neighbours_centred (valid : curve.WellFormed) {least greatest : Rat}
    (bounds : ∀ x, curve.Supports x → rat least ≤ x ∧ x ≤ rat greatest) :
    ∀ pair ∈ adjacent curve, (Mass.below pair.1 pair.2).Centred least greatest := by
  intro pair member
  obtain ⟨p, m, q, n, neighbours⟩ := valid.exists_neighbouring member
  have solid := neighbours.solid_iff
  have fromLeast (here : Solid pair.1 pair.2) := (bounds _ ⟨pair, member, here, .inl rfl⟩).1
  have toGreatest (here : Solid pair.1 pair.2) := (bounds _ ⟨pair, member, here, .inr rfl⟩).2
  obtain ⟨first, second, -, nonneg, alsoNonneg⟩ := neighbours
  rw [first, second] at solid fromLeast toGreatest ⊢
  refine Mass.below_centred_rat nonneg alsoNonneg fun wide height => ?_
  have here := solid.mpr ⟨wide, height⟩
  exact ⟨(rat_le _ _).mp (fromLeast here), (rat_le _ _).mp (toGreatest here)⟩

theorem WellFormed.isSome_centroid?_iff (valid : curve.WellFormed) :
    curve.centroid?.isSome ↔ ∃ pair ∈ adjacent curve, Solid pair.1 pair.2 := by
  obtain ⟨least, greatest, bounds, -⟩ := valid.exists_extremes
  have centred := valid.neighbours_centred bounds
  rw [isSome_centroid?_iff_area (foldl_centred Mass.centred_zero centred),
    mass_area_pos_iff_exists centred]
  refine exists_congr fun pair => and_congr_right fun member => ?_
  obtain ⟨p, m, q, n, neighbours⟩ := valid.exists_neighbouring member
  exact neighbours.below_area_pos_iff

theorem WellFormed.below_answering (valid : curve.WellFormed) (byZero : Exact → Exact) :
    ∀ pair ∈ adjacent curve,
      @Mass.below Exact (answering byZero) pair.1 pair.2 = Mass.below pair.1 pair.2 := by
  intro pair member
  obtain ⟨p, m, q, n, first, second, -, nonneg, alsoNonneg⟩ := valid.exists_neighbouring member
  rw [first, second, Mass.below_answering_rat byZero nonneg alsoNonneg]

/-- A well-formed curve has no centroid exactly if neighbours that differ in position are both at
degree 0. A centroid lies strictly between the first and the last position of solid neighbours.
The result of a division by zero is used neither for a trapezoid nor for the centroid. -/
theorem WellFormed.centroid?_inside (valid : curve.WellFormed) :
    (curve.centroid? = none
      ↔ ∀ pair ∈ adjacent curve, pair.1.position ≠ pair.2.position →
        pair.1.degree = 0 ∧ pair.2.degree = 0)
      ∧ (∀ x, curve.centroid? = some x →
        ∃ least greatest, IsLeast {p | curve.Supports p} least
          ∧ IsGreatest {p | curve.Supports p} greatest ∧ least < x ∧ x < greatest)
      ∧ ∀ byZero, (∀ pair ∈ adjacent curve,
          @Mass.below Exact (answering byZero) pair.1 pair.2 = Mass.below pair.1 pair.2)
        ∧ @centroid? Exact (answering byZero) curve = curve.centroid? := by
  obtain ⟨least, greatest, bounds, reached⟩ := valid.exists_extremes
  have centred := foldl_centred Mass.centred_zero (valid.neighbours_centred bounds)
  refine ⟨?_, fun x found => ?_, fun byZero => ?_⟩
  · rw [← Option.not_isSome_iff_eq_none, valid.isSome_centroid?_iff, not_exists]
    refine forall_congr' fun pair => ?_
    rw [not_and]
    refine forall_congr' fun member => ?_
    obtain ⟨p, m, q, n, neighbours⟩ := valid.exists_neighbouring member
    exact neighbours.not_solid_iff
  · obtain ⟨pair, member, solid⟩ := valid.isSome_centroid?_iff.mp (by rw [found]; rfl)
    obtain ⟨first, last⟩ := reached ⟨_, pair, member, solid, .inl rfl⟩
    obtain ⟨q, rfl, above, below⟩ := centroid?_strictly_between centred found
    refine ⟨rat least, rat greatest, ⟨first, ?_⟩, ⟨last, ?_⟩, ?_, ?_⟩
    · exact fun x supports => (bounds x supports).1
    · exact fun x supports => (bounds x supports).2
    · exact (rat_lt _ _).mpr above
    · exact (rat_lt _ _).mpr below
  · have same := valid.below_answering byZero
    exact ⟨same, centroid?_answering_of_below centred same⟩

def jagged : List (Rat × Rat) := [(0, 0), (0, 1), (1, 0), (2, 0), (3, 0), (3, 2)]

theorem centroid?_inside_jagged :
    (plotted jagged).WellFormed ∧ (plotted jagged).centroid? = some (rat (1 / 3))
      ∧ ∃ least greatest, IsLeast {p | (plotted jagged).Supports p} least
        ∧ IsGreatest {p | (plotted jagged).Supports p} greatest
        ∧ least < rat (1 / 3) ∧ rat (1 / 3) < greatest := by
  have rightward : Rightward jagged := by
    constructor
    case ordered => decide +kernel
    case nonneg => decide +kernel
  have found : (plotted jagged).centroid? = some (rat (1 / 3)) := by decide +kernel
  obtain ⟨-, inside, -⟩ := rightward.wellFormed.centroid?_inside
  exact ⟨rightward.wellFormed, found, inside _ found⟩

end Curve
end RuleAdvisor.Fuzzy
