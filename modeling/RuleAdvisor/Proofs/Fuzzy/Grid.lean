import Mathlib.Data.List.Range
import RuleAdvisor.Proofs.Fuzzy.Placement

/-!
What the samples cover. They start at the least value of a domain and go on by whole steps, and if
the last of these falls short of the greatest value by more than the tolerance, that value closes
them off. They end with the domain unless a whole number of steps nearly spans it: then the last
sample stays beside the greatest value, on either side of it.
-/

namespace RuleAdvisor.Fuzzy

open Exact

def gridPoints (least step : Rat) (count : Nat) : List Rat :=
  (List.range (count + 1)).map (gridPoint least step)

theorem gridPoint_zero (least step : Rat) : gridPoint least step 0 = least := by
  simp [gridPoint]

theorem gridPoint_succ (least step : Rat) (index : Nat) :
    gridPoint least step (index + 1) = gridPoint least step index + step := by
  rw [gridPoint, gridPoint, Nat.cast_add_one]
  ring

theorem gridPoint_le {step : Rat} (positive : 0 < step) (least : Rat) {i j : Nat}
    (ordered : i ≤ j) : gridPoint least step i ≤ gridPoint least step j := by
  have counted : (i : Rat) ≤ j := by exact_mod_cast ordered
  have covered := mul_le_mul_of_nonneg_right counted positive.le
  rw [gridPoint, gridPoint]
  linarith

theorem gridPoint_lt {step : Rat} (positive : 0 < step) (least : Rat) {i j : Nat}
    (ordered : i < j) : gridPoint least step i < gridPoint least step j := by
  have counted : (i : Rat) < j := by exact_mod_cast ordered
  have covered := mul_lt_mul_of_pos_right counted positive
  rw [gridPoint, gridPoint]
  linarith

section GridPoints

variable {least step : Rat} {count : Nat}

theorem mem_gridPoints {x : Rat} :
    x ∈ gridPoints least step count ↔ ∃ index ≤ count, gridPoint least step index = x := by
  simp only [gridPoints, List.mem_map, List.mem_range, Nat.lt_succ_iff]

@[simp] theorem head?_gridPoints : (gridPoints least step count).head? = some least := by
  simp [gridPoints, List.range_succ_eq_map, gridPoint_zero]

@[simp] theorem getLast?_gridPoints :
    (gridPoints least step count).getLast? = some (gridPoint least step count) := by
  simp [gridPoints, List.range_succ]

theorem getElem?_gridPoints {index : Nat} (within : index ≤ count) :
    (gridPoints least step count)[index]? = some (gridPoint least step index) := by
  simp [gridPoints, Nat.lt_succ_of_le within]

theorem gridPoints_ascending (positive : 0 < step) :
    (gridPoints least step count).Pairwise (· < ·) := by
  rw [gridPoints, List.pairwise_map]
  exact List.pairwise_lt_range.imp fun ordered => gridPoint_lt positive least ordered

theorem gridPoints_gaps :
    (gridPoints least step count).IsChain fun x y => y - x = step := by
  rw [gridPoints, List.isChain_map, List.isChain_range_succ]
  intro index _
  rw [Nat.succ_eq_add_one, gridPoint_succ, add_sub_cancel_left]

end GridPoints

section Samples

variable {least greatest step : Rat}

def stepsTaken (least greatest step : Rat) : Nat := (stepCount least greatest step).toNat

def stepsEnd (least greatest step : Rat) : Rat :=
  gridPoint least step (stepsTaken least greatest step)

def samplePoints (least greatest step : Rat) : List Rat :=
  gridPoints least step (stepsTaken least greatest step)
    ++ if step * nearness < greatest - stepsEnd least greatest step then [greatest] else []

theorem samples_eq_samplePoints (ordered : least < greatest) (positive : 0 < step) :
    (Domain.mk (rat least) (rat greatest)).samples (rat step)
      = (samplePoints least greatest step).map rat := by
  rw [samples_eq ordered positive, samplePoints, gridPoints, List.map_append, List.map_map,
    stepsEnd, stepsTaken]
  split <;> rfl

theorem stepsEnd_eq (positive : 0 < step) :
    greatest - stepsEnd least greatest step
      = ((greatest - least) / step - stepsTaken least greatest step) * step := by
  rw [stepsEnd, gridPoint, sub_mul, div_mul_cancel₀ _ positive.ne']
  ring

theorem stepsTaken_within (ordered : least < greatest) (positive : 0 < step) :
    stepsTaken least greatest step ≤ (greatest - least) / step + nearness
      ∧ (greatest - least) / step + nearness < stepsTaken least greatest step + 1 := by
  have counted : ((stepsTaken least greatest step : Nat) : Int) = stepCount least greatest step :=
    Int.toNat_of_nonneg (stepCount_nonneg ordered positive)
  have inRat : (stepsTaken least greatest step : Rat) = stepCount least greatest step := by
    exact_mod_cast congrArg (Int.cast : Int → Rat) counted
  rw [inRat]
  exact ⟨Int.floor_le _, Int.lt_floor_add_one _⟩

/-- Where the steps end, the greatest value is nearer than one more step, and is passed at most by
the tolerance. -/
theorem stepsEnd_near (ordered : least < greatest) (positive : 0 < step) :
    -(nearness * step) ≤ greatest - stepsEnd least greatest step
      ∧ greatest - stepsEnd least greatest step < (1 - nearness) * step := by
  obtain ⟨lower, upper⟩ := stepsTaken_within ordered positive
  rw [stepsEnd_eq positive, ← neg_mul]
  constructor
  · exact mul_le_mul_of_nonneg_right (by linarith) positive.le
  · exact mul_lt_mul_of_pos_right (by linarith) positive

theorem samplePoints_closed
    (short : step * nearness < greatest - stepsEnd least greatest step) :
    samplePoints least greatest step
      = gridPoints least step (stepsTaken least greatest step) ++ [greatest] := by
  rw [samplePoints, if_pos short]

theorem samplePoints_open
    (near : ¬ step * nearness < greatest - stepsEnd least greatest step) :
    samplePoints least greatest step = gridPoints least step (stepsTaken least greatest step) := by
  rw [samplePoints, if_neg near, List.append_nil]

theorem le_stepsEnd (positive : 0 < step) {x : Rat}
    (member : x ∈ gridPoints least step (stepsTaken least greatest step)) :
    least ≤ x ∧ x ≤ stepsEnd least greatest step := by
  obtain ⟨index, within, rfl⟩ := mem_gridPoints.mp member
  have start := gridPoint_le positive least (Nat.zero_le index)
  rw [gridPoint_zero] at start
  exact ⟨start, gridPoint_le positive least within⟩

theorem head?_samplePoints : (samplePoints least greatest step).head? = some least := by
  rw [samplePoints, List.head?_append, head?_gridPoints, Option.some_or]

theorem samplePoints_ascending (positive : 0 < step) :
    (samplePoints least greatest step).Pairwise (· < ·) := by
  rw [samplePoints, List.pairwise_append]
  refine ⟨gridPoints_ascending positive, by split <;> simp, ?_⟩
  intro x member y last
  split at last
  · next short =>
      obtain ⟨-, before⟩ := le_stepsEnd positive member
      have apart := mul_pos positive nearness_pos
      rw [List.mem_singleton.mp last]
      linarith
  · cases last

theorem samplePoints_gaps (ordered : least < greatest) (positive : 0 < step) :
    (samplePoints least greatest step).IsChain fun x y => y - x ≤ step := by
  rw [samplePoints, List.isChain_append]
  refine ⟨gridPoints_gaps.imp fun _ _ => le_of_eq, by split <;> simp, ?_⟩
  intro x atEnd y first
  split at first
  · obtain ⟨-, near⟩ := stepsEnd_near ordered positive
    have overlooked := mul_pos nearness_pos positive
    rw [getLast?_gridPoints, Option.mem_some_iff] at atEnd
    rw [List.head?_cons, Option.mem_some_iff] at first
    rw [← atEnd, ← first]
    rw [stepsEnd] at near
    linarith
  · cases first

theorem getElem?_samplePoints {index : Nat}
    (notLast : index + 1 < (samplePoints least greatest step).length) :
    (samplePoints least greatest step)[index]? = some (gridPoint least step index) := by
  have counted : (gridPoints least step (stepsTaken least greatest step)).length
      = stepsTaken least greatest step + 1 := by
    simp [gridPoints]
  have within : index ≤ stepsTaken least greatest step := by
    rw [samplePoints, List.length_append, counted] at notLast
    split at notLast <;> simp at notLast <;> omega
  rw [samplePoints, List.getElem?_append_left (by omega), getElem?_gridPoints within]

end Samples

/-- Positions from the least value on, in steps of which only the last may be shorter. -/
structure Domain.Stepped (domain : Domain Exact) (step : Exact) (xs : List Exact) : Prop where
  first : xs.head? = some domain.least
  ascending : xs.Pairwise (· < ·)
  gaps : xs.IsChain fun x y => y - x ≤ step
  placed : ∀ index, index + 1 < xs.length →
    xs[index]? = some (domain.least + Number.ofNat index * step)

structure Domain.Covered (domain : Domain Exact) (step : Exact) (xs : List Exact) : Prop
    extends Domain.Stepped domain step xs where
  last : xs.getLast? = some domain.greatest
  inside : ∀ x ∈ xs, domain.least ≤ x ∧ x ≤ domain.greatest

section Covering

variable {least greatest step : Rat}

theorem samples_stepped (ordered : least < greatest) (positive : 0 < step) :
    (Domain.mk (rat least) (rat greatest)).Stepped (rat step)
      ((Domain.mk (rat least) (rat greatest)).samples (rat step)) := by
  rw [samples_eq_samplePoints ordered positive]
  constructor
  case first => rw [List.head?_map, head?_samplePoints, Option.map_some]
  case ascending =>
    rw [List.pairwise_map]
    exact (samplePoints_ascending positive).imp (rat_lt _ _).mpr
  case gaps =>
    rw [List.isChain_map]
    refine (samplePoints_gaps ordered positive).imp fun x y gap => ?_
    rwa [rat_sub, rat_le]
  case placed =>
    intro index notLast
    rw [List.length_map] at notLast
    rw [List.getElem?_map, getElem?_samplePoints notLast, ofNat_eq, rat_mul, rat_add]
    rfl

/-- A whole number of steps that ends near the greatest value ends on it. -/
def EndsOnSteps (least greatest step : Rat) : Prop :=
  ∀ count : Int, |(greatest - least) / step - count| ≤ nearness →
    (greatest - least) / step = count

theorem eq_stepsTaken_of_near (ordered : least < greatest) (positive : 0 < step) {count : Int}
    (near : |(greatest - least) / step - count| ≤ nearness) :
    count = stepsTaken least greatest step := by
  obtain ⟨lower, upper⟩ := stepsTaken_within ordered positive
  obtain ⟨above, below⟩ := abs_le.mp near
  have tiny : nearness < 1 / 2 := by norm_num [nearness]
  have notMore : (count : Rat) < stepsTaken least greatest step + 1 := by linarith
  have notLess : (stepsTaken least greatest step : Rat) < count + 1 := by linarith
  have notMore : count < (stepsTaken least greatest step : Int) + 1 := by exact_mod_cast notMore
  have notLess : (stepsTaken least greatest step : Int) < count + 1 := by exact_mod_cast notLess
  omega

theorem endsOnSteps_iff (ordered : least < greatest) (positive : 0 < step) :
    EndsOnSteps least greatest step
      ↔ step * nearness < greatest - stepsEnd least greatest step
        ∨ stepsEnd least greatest step = greatest := by
  obtain ⟨lower, upper⟩ := stepsTaken_within ordered positive
  -- Both sides are counted in steps, where the tolerance is the same for every step.
  have apart : step * nearness < greatest - stepsEnd least greatest step
      ↔ nearness < (greatest - least) / step - stepsTaken least greatest step := by
    rw [stepsEnd_eq positive, mul_comm step, mul_lt_mul_iff_left₀ positive]
  have onEnd : stepsEnd least greatest step = greatest
      ↔ (greatest - least) / step = stepsTaken least greatest step := by
    rw [eq_comm, ← sub_eq_zero, stepsEnd_eq positive, mul_eq_zero, or_iff_left positive.ne',
      sub_eq_zero]
  rw [apart, onEnd]
  constructor
  · intro ends
    by_cases short : nearness < (greatest - least) / step - stepsTaken least greatest step
    · exact .inl short
    · right
      have near : |(greatest - least) / step - ((stepsTaken least greatest step : Nat) : Int)|
          ≤ nearness := by
        rw [Int.cast_natCast, abs_le]
        constructor <;> linarith
      have whole := ends _ near
      rwa [Int.cast_natCast] at whole
  · intro closed count near
    obtain rfl := eq_stepsTaken_of_near ordered positive near
    rw [Int.cast_natCast] at near ⊢
    rcases closed with short | whole
    · exact absurd (abs_le.mp near).2 (not_le.mpr short)
    · exact whole

theorem getLast?_samplePoints :
    (samplePoints least greatest step).getLast?
      = some (if step * nearness < greatest - stepsEnd least greatest step then greatest
        else stepsEnd least greatest step) := by
  rw [samplePoints, List.getLast?_append, getLast?_gridPoints]
  split <;> rfl

theorem last_near (ordered : least < greatest) (positive : 0 < step) :
    ∃ last : Rat, (samplePoints least greatest step).getLast? = some last
      ∧ |last - greatest| ≤ nearness * step := by
  obtain ⟨beyond, -⟩ := stepsEnd_near ordered positive
  refine ⟨_, getLast?_samplePoints, ?_⟩
  split
  · rw [sub_self, abs_zero]
    exact (mul_pos nearness_pos positive).le
  · next near =>
      rw [mul_comm step, not_lt] at near
      rw [abs_sub_comm, abs_le]
      exact ⟨beyond, near⟩

theorem samplePoints_within_iff (ordered : least < greatest) (positive : 0 < step) :
    (samplePoints least greatest step).getLast? = some greatest
        ∧ (∀ x ∈ samplePoints least greatest step, least ≤ x ∧ x ≤ greatest)
      ↔ EndsOnSteps least greatest step := by
  rw [endsOnSteps_iff ordered positive, getLast?_samplePoints, Option.some_inj]
  by_cases short : step * nearness < greatest - stepsEnd least greatest step
  · rw [if_pos short]
    refine iff_of_true ⟨rfl, fun x member => ?_⟩ (.inl short)
    have apart := mul_pos positive nearness_pos
    rw [samplePoints_closed short, List.mem_append, List.mem_singleton] at member
    rcases member with onGrid | rfl
    · obtain ⟨start, finish⟩ := le_stepsEnd positive onGrid
      exact ⟨start, by linarith⟩
    · exact ⟨ordered.le, le_refl _⟩
  · rw [if_neg short, or_iff_right short, and_iff_left_iff_imp]
    intro same x member
    rw [samplePoints_open short] at member
    exact same ▸ le_stepsEnd positive member

/-- The samples of every domain start at its least value and go on by whole steps, and their last is
the greatest value or beside it, no further than the tolerance's share of a step. They end with the
domain, none beyond it, exactly if no whole number of steps comes that near its greatest value
without ending on it. -/
theorem samples_covered_iff (ordered : least < greatest) (positive : 0 < step) :
    let domain : Domain Exact := ⟨rat least, rat greatest⟩
    domain.Stepped (rat step) (domain.samples (rat step))
      ∧ (∃ last : Rat, (domain.samples (rat step)).getLast? = some (rat last)
        ∧ |last - greatest| ≤ nearness * step)
      ∧ (domain.Covered (rat step) (domain.samples (rat step))
        ↔ EndsOnSteps least greatest step) := by
  intro domain
  have stepped : domain.Stepped (rat step) (domain.samples (rat step)) :=
    samples_stepped ordered positive
  have inRationals : domain.samples (rat step) = (samplePoints least greatest step).map rat :=
    samples_eq_samplePoints ordered positive
  obtain ⟨last, atEnd, near⟩ := last_near ordered positive
  refine ⟨stepped, ⟨last, ?_, near⟩, ?_⟩
  · rw [inRationals, List.getLast?_map, atEnd, Option.map_some]
  -- What is to be shown of the samples is known of the rationals that they are.
  · rw [← samplePoints_within_iff ordered positive]
    constructor
    · rintro ⟨-, last, inside⟩
      rw [inRationals] at last inside
      refine ⟨?_, fun x member => ?_⟩
      · rw [List.getLast?_map, Option.map_eq_some_iff] at last
        obtain ⟨x, found, same⟩ := last
        rw [found, rat.inj same]
      · obtain ⟨lower, upper⟩ := inside _ (List.mem_map_of_mem member)
        exact ⟨(rat_le _ _).mp lower, (rat_le _ _).mp upper⟩
    · rintro ⟨last, inside⟩
      refine ⟨stepped, ?_, fun x member => ?_⟩
      · rw [inRationals, List.getLast?_map, last, Option.map_some]
      · rw [inRationals] at member
        obtain ⟨q, listed, rfl⟩ := List.mem_map.mp member
        obtain ⟨lower, upper⟩ := inside q listed
        exact ⟨(rat_le _ _).mpr lower, (rat_le _ _).mpr upper⟩

/-- Three steps of 3 leave a shorter one to 10. -/
theorem samples_covered_iff_shorter :
    (0 : Rat) < 10 ∧ (0 : Rat) < 3 ∧ (Domain.mk (rat 0) (rat 10)).Covered (rat 3)
      ((Domain.mk (rat 0) (rat 10)).samples (rat 3)) := by
  have ordered : (0 : Rat) < 10 := by norm_num
  have positive : (0 : Rat) < 3 := by norm_num
  refine ⟨ordered, positive, (samples_covered_iff ordered positive).2.2.mpr ?_⟩
  intro count near
  obtain ⟨above, below⟩ := abs_le.mp near
  have tiny : nearness < 1 / 3 := by norm_num [nearness]
  rcases Int.lt_or_le 3 count with more | fewer
  · have four : (4 : Rat) ≤ count := by exact_mod_cast more
    linarith
  · have three : (count : Rat) ≤ 3 := by exact_mod_cast fewer
    linarith

/-- Three steps of just over a third pass 1, and 1 itself is not sampled. -/
theorem samples_past_greatest :
    let domain : Domain Exact := ⟨0, 1⟩
    let step : Exact := 0.3333333334
    domain.WellFormed ∧ 0 < step ∧ step ≤ domain.greatest - domain.least
      ∧ domain.samples step = [0, 0.3333333334, 0.6666666668, 1.0000000002]
      ∧ ¬ domain.Covered step (domain.samples step) := by
  intro domain step
  have sampled : domain.samples step = [0, 0.3333333334, 0.6666666668, 1.0000000002] := by
    decide +kernel
  refine ⟨by constructor <;> decide +kernel, by decide +kernel, by decide +kernel, sampled, ?_⟩
  intro covered
  have beyond := (covered.inside 1.0000000002 (by rw [sampled]; simp)).2
  exact absurd beyond (by decide +kernel)

end Covering

end RuleAdvisor.Fuzzy
