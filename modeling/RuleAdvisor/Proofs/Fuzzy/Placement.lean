import Mathlib.Data.List.Chain
import RuleAdvisor.Fuzzy.Inference
import RuleAdvisor.Proofs.Fuzzy.Degree
import RuleAdvisor.Sorting.Permutation

/-!
Where the curve over the output's domain is sampled. Every position, be it on the grid or at a
crossing, lies in the domain, up to the share of a step by which the grid may exceed it, and
neighbours are further apart than the tolerance.
-/

namespace RuleAdvisor.Fuzzy

open Exact

def Within (least greatest : Rat) (x : Exact) : Prop :=
  ∃ q, x = rat q ∧ least ≤ q ∧ q ≤ greatest

@[simp] theorem within_rat (least greatest q : Rat) :
    Within least greatest (rat q) ↔ least ≤ q ∧ q ≤ greatest := by
  simp [Within]

theorem Within.exists_rat {least greatest : Rat} {x : Exact} (within : Within least greatest x) :
    ∃ q, x = rat q := within.imp fun _ parts => parts.1

def nearness : Rat := 1 / 10 ^ 9

theorem nearness_pos : 0 < nearness := by norm_num [nearness]

theorem tolerance_eq : (tolerance : Exact) = rat nearness := by
  show rat (((1 : Nat) : Rat) / 10 ^ 9) = rat (1 / 10 ^ 9)
  norm_num

section Grid

variable {least greatest step : Rat}

/-- How often a step fits, up to the tolerance. -/
def stepCount (least greatest step : Rat) : Int := ⌊(greatest - least) / step + nearness⌋

theorem stepCount_nonneg (ordered : least < greatest) (positive : 0 < step) :
    0 ≤ stepCount least greatest step := by
  have quotient : 0 ≤ (greatest - least) / step :=
    div_nonneg (sub_nonneg.mpr ordered.le) positive.le
  exact Int.floor_nonneg.mpr (by linarith [nearness_pos])

theorem stepCount_mul_le (least greatest : Rat) {step : Rat} (positive : 0 < step) :
    stepCount least greatest step * step ≤ greatest - least + nearness * step := by
  have atMost : (stepCount least greatest step : Rat) ≤ (greatest - least) / step + nearness :=
    Int.floor_le _
  calc (stepCount least greatest step : Rat) * step
      ≤ ((greatest - least) / step + nearness) * step :=
        mul_le_mul_of_nonneg_right atMost positive.le
    _ = greatest - least + nearness * step := by
        rw [add_mul, div_mul_cancel₀ _ positive.ne']

def gridPoint (least step : Rat) (index : Nat) : Rat := least + index * step

theorem samples?_eq (ordered : least < greatest) (positive : 0 < step) :
    (Domain.mk (rat least) (rat greatest)).samples? (rat step)
      = some ((List.range ((stepCount least greatest step).toNat + 1)).map
          (fun index => rat (gridPoint least step index))
        ++ if step * nearness
              < greatest - gridPoint least step (stepCount least greatest step).toNat
            then [rat greatest] else []) := by
  have lastStep : Number.floor ((rat greatest - rat least) / rat step + tolerance)
      = rat (stepCount least greatest step) := by
    rw [tolerance_eq, rat_sub, rat_div _ positive.ne', rat_add, floor_rat]
    rfl
  have placed (index : Nat) : rat least + Number.ofNat index * rat step
      = rat (gridPoint least step index) := by
    rw [ofNat_eq, rat_mul, rat_add, gridPoint]
  have reached (count : Nat) (place : Nat → Exact) :
      ((List.range (count + 1)).map place).getLast? = some (place count) := by
    rw [List.range_succ, List.map_append, List.map_singleton, List.getLast?_concat]
  simp only [Domain.samples?, lastStep]
  -- Only now do the steps stand as an integer and can be counted.
  simp only [steps_int _ (stepCount_nonneg ordered positive), Option.map_some, Domain.gridOf,
    placed, reached, tolerance_eq, rat_mul, rat_sub, rat_lt]
  split
  · rfl
  · rw [List.append_nil]

theorem samples_eq (ordered : least < greatest) (positive : 0 < step) :
    (Domain.mk (rat least) (rat greatest)).samples (rat step)
      = (List.range ((stepCount least greatest step).toNat + 1)).map
          (fun index => rat (gridPoint least step index))
        ++ if step * nearness
              < greatest - gridPoint least step (stepCount least greatest step).toNat
            then [rat greatest] else [] := by
  rw [Domain.samples, samples?_eq ordered positive, Option.getD_some]

theorem gridPoint_within (ordered : least < greatest) (positive : 0 < step) {index : Nat}
    (fits : index ≤ (stepCount least greatest step).toNat) {reach : Rat}
    (whole : stepCount least greatest step * step ≤ reach - least) :
    Within least reach (rat (gridPoint least step index)) := by
  have nonneg := stepCount_nonneg ordered positive
  have inCount : (index : Int) ≤ stepCount least greatest step := by omega
  have atMost : (index : Rat) ≤ stepCount least greatest step := by exact_mod_cast inCount
  have covered := mul_le_mul_of_nonneg_right atMost positive.le
  have forward : 0 ≤ (index : Rat) * step := mul_nonneg (Nat.cast_nonneg index) positive.le
  rw [within_rat, gridPoint]
  constructor <;> linarith

theorem samples_within_of_reach (ordered : least < greatest) (positive : 0 < step) {reach : Rat}
    (whole : stepCount least greatest step * step ≤ reach - least) (beyond : greatest ≤ reach) :
    ∀ x ∈ (Domain.mk (rat least) (rat greatest)).samples (rat step), Within least reach x := by
  intro x member
  rw [samples_eq ordered positive] at member
  rcases List.mem_append.mp member with onGrid | last
  · obtain ⟨index, inRange, rfl⟩ := List.mem_map.mp onGrid
    exact gridPoint_within ordered positive
      (Nat.lt_succ_iff.mp (List.mem_range.mp inRange)) whole
  · split at last
    · rw [List.mem_singleton.mp last, within_rat]
      exact ⟨ordered.le, beyond⟩
    · cases last

/-- The grid stays in the domain, up to the share of a step that counting steps overlooks. -/
theorem samples_within (ordered : least < greatest) (positive : 0 < step) :
    ∀ x ∈ (Domain.mk (rat least) (rat greatest)).samples (rat step),
      Within least (greatest + nearness * step) x := by
  have overlooked := mul_pos nearness_pos positive
  apply samples_within_of_reach ordered positive
  · linarith [stepCount_mul_le least greatest positive]
  · linarith

theorem gridPoint_mem_samples (ordered : least < greatest) (positive : 0 < step) {index : Nat}
    (fits : index ≤ stepCount least greatest step) :
    rat (gridPoint least step index)
      ∈ (Domain.mk (rat least) (rat greatest)).samples (rat step) := by
  rw [samples_eq ordered positive]
  apply List.mem_append_left
  exact List.mem_map_of_mem (List.mem_range.mpr (by omega))

theorem samples?_answering (byZero : Exact → Exact) (positive : 0 < step) :
    @Domain.samples? Exact (answering byZero) ⟨rat least, rat greatest⟩ (rat step)
      = (Domain.mk (rat least) (rat greatest)).samples? (rat step) := by
  unfold Domain.samples?
  simp only [rat_sub]
  rw [answering_ratio byZero _ positive.ne']
  rfl

end Grid

theorem mem_of_mem_adjacent {β : Type} {xs : List β} {pair : β × β}
    (member : pair ∈ adjacent xs) : pair.1 ∈ xs ∧ pair.2 ∈ xs := by
  have parts := List.of_mem_zip (a := pair.1) (b := pair.2) member
  exact ⟨parts.1, List.mem_of_mem_tail parts.2⟩

/-- On the way from one value to another the line passes a level between them inside the pair. -/
theorem share_of_opposite {first second level : Rat}
    (opposite : (first - level) * (second - level) < 0) :
    0 < (level - first) / (second - first) ∧ (level - first) / (second - first) < 1 := by
  rcases mul_neg_iff.mp opposite with ⟨above, below⟩ | ⟨below, above⟩
  · have falls : second - first < 0 := by linarith
    constructor
    · exact div_pos_of_neg_of_neg (by linarith) falls
    · rw [div_lt_one_of_neg falls]
      linarith
  · have rises : 0 < second - first := by linarith
    constructor
    · exact div_pos (by linarith) rises
    · rw [div_lt_one rises]
      linarith

theorem between_bounds {least greatest p q share : Rat} (leastP : least ≤ p)
    (greatestP : p ≤ greatest) (leastQ : least ≤ q) (greatestQ : q ≤ greatest)
    (nonneg : 0 ≤ share) (atMostOne : share ≤ 1) :
    least ≤ p + share * (q - p) ∧ p + share * (q - p) ≤ greatest := by
  constructor <;> nlinarith

theorem apart_of_opposite {first second level : Rat}
    (opposite : (first - level) * (second - level) < 0) : second - first ≠ 0 := by
  intro same
  rw [sub_eq_zero.mp same] at opposite
  exact absurd opposite (not_lt.mpr (mul_self_nonneg _))

section Crossings

variable {least greatest level : Rat} {shape : Shape Exact}

theorem Shape.crossing?_rat {p q m n : Rat} (atFirst : shape.degree (rat p) = rat m)
    (atSecond : shape.degree (rat q) = rat n) :
    shape.crossing? (rat level) (rat p, rat q)
      = if (m - level) * (n - level) < 0 then
          some (rat (p + (level - m) / (n - m) * (q - p)))
        else none := by
  simp only [Shape.crossing?, atFirst, atSecond, rat_sub, rat_mul, literal_eq, rat_lt,
    Nat.cast_zero]
  split
  · next opposite =>
      rw [rat_div _ (apart_of_opposite opposite), rat_add, mul_div_right_comm]
  · rfl

theorem Shape.crossing?_within (valid : shape.WellFormed) {pair : Exact × Exact}
    (first : Within least greatest pair.1) (second : Within least greatest pair.2) {x : Exact}
    (found : shape.crossing? (rat level) pair = some x) : Within least greatest x := by
  obtain ⟨left, right⟩ := pair
  obtain ⟨p, rfl, leastP, greatestP⟩ := first
  obtain ⟨q, rfl, leastQ, greatestQ⟩ := second
  obtain ⟨m, atFirst, _⟩ := (isDegree_iff _).mp (valid.isDegree p)
  obtain ⟨n, atSecond, _⟩ := (isDegree_iff _).mp (valid.isDegree q)
  rw [Shape.crossing?_rat atFirst atSecond] at found
  split at found
  · next opposite =>
      obtain ⟨positive, belowOne⟩ := share_of_opposite opposite
      cases found
      rw [within_rat]
      exact between_bounds leastP greatestP leastQ greatestQ positive.le belowOne.le
  · cases found

theorem Shape.crossings_within (valid : shape.WellFormed) {xs : List Exact}
    (within : ∀ x ∈ xs, Within least greatest x) :
    ∀ x ∈ shape.crossings (rat level) xs, Within least greatest x := by
  intro x member
  obtain ⟨pair, neighbours, found⟩ := List.mem_filterMap.mp member
  obtain ⟨first, second⟩ := mem_of_mem_adjacent neighbours
  exact Shape.crossing?_within valid (within _ first) (within _ second) found

theorem Shape.crossing?_answering (byZero : Exact → Exact) (valid : shape.WellFormed)
    (p q : Rat) :
    @Shape.crossing? Exact (answering byZero) shape (rat level) (rat p, rat q)
      = shape.crossing? (rat level) (rat p, rat q) := by
  obtain ⟨m, atFirst, _⟩ := (isDegree_iff _).mp (valid.isDegree p)
  obtain ⟨n, atSecond, _⟩ := (isDegree_iff _).mp (valid.isDegree q)
  unfold Shape.crossing?
  simp only [valid.degree_answering byZero, atFirst, atSecond, rat_sub, rat_mul, literal_eq,
    rat_lt, Nat.cast_zero]
  split
  · next opposite => rw [answering_ratio byZero _ (apart_of_opposite opposite)]
  · rfl

theorem Shape.crossings_answering (byZero : Exact → Exact) (valid : shape.WellFormed)
    {xs : List Exact} (within : ∀ x ∈ xs, Within least greatest x) :
    @Shape.crossings Exact (answering byZero) shape (rat level) xs
      = shape.crossings (rat level) xs := by
  apply List.filterMap_congr
  intro pair neighbours
  obtain ⟨first, second⟩ := mem_of_mem_adjacent neighbours
  obtain ⟨left, right⟩ := pair
  obtain ⟨p, rfl, _⟩ := within _ first
  obtain ⟨q, rfl, _⟩ := within _ second
  exact Shape.crossing?_answering byZero valid p q

end Crossings

theorem partition_isGiven (xs : List Exact) : xs.partition Number.isGiven = (xs, []) := by
  simp [List.partition_eq_filter_filter]

theorem sortPositions_perm (xs : List Exact) : (sortPositions xs).Perm xs := by
  simp only [sortPositions, partition_isGiven, List.append_nil]
  split
  · exact Sorting.byRuns_perm _ xs
  · exact List.mergeSort_perm xs _

theorem sortPositions_of_ascending {xs : List Exact} (numbers : xs.any Number.isNaN = false)
    (ascending : xs.Pairwise fun x y => ¬ y < x) : sortPositions xs = xs := by
  simp only [sortPositions, partition_isGiven, numbers, Bool.false_eq_true, if_false,
    List.append_nil]
  apply List.mergeSort_of_pairwise
  apply ascending.imp
  intro x y ordered
  simp [ordered]

theorem mem_keepApart {kept : List Exact} {next x : Exact} (member : x ∈ keepApart kept next) :
    x ∈ kept ∨ x = next := by
  cases kept with
  | nil => exact .inr (List.mem_singleton.mp member)
  | cons last earlier =>
      simp only [keepApart] at member
      split at member
      · exact (List.mem_cons.mp member).symm
      · exact .inl member

theorem mem_foldl_keepApart {kept xs : List Exact} {x : Exact}
    (member : x ∈ xs.foldl keepApart kept) : x ∈ kept ∨ x ∈ xs := by
  induction xs generalizing kept with
  | nil => exact .inl member
  | cons next rest ih =>
      rcases ih member with early | late
      · rcases mem_keepApart early with before | rfl
        · exact .inl before
        · exact .inr List.mem_cons_self
      · exact .inr (List.mem_cons_of_mem _ late)

theorem mem_mergePositions {xs extra : List Exact} {x : Exact}
    (member : x ∈ mergePositions xs extra) : x ∈ xs ∨ x ∈ extra := by
  rcases mem_foldl_keepApart (List.mem_reverse.mp member) with nothing | sorted
  · cases nothing
  · exact List.mem_append.mp ((sortPositions_perm _).mem_iff.mp sorted)

/-- Each position is further than the tolerance behind the one before it. -/
def Apart (xs : List Exact) : Prop := xs.IsChain fun earlier later => tolerance < later - earlier

theorem keepApart_apart {kept : List Exact} (apart : Apart kept.reverse) (next : Exact) :
    Apart (keepApart kept next).reverse := by
  cases kept with
  | nil => exact .singleton next
  | cons last earlier =>
      simp only [keepApart]
      split
      · next further =>
          rw [Apart, List.isChain_reverse] at apart ⊢
          exact .cons_cons further apart
      · exact apart

theorem foldl_keepApart_apart {kept : List Exact} (apart : Apart kept.reverse)
    (xs : List Exact) : Apart (xs.foldl keepApart kept).reverse := by
  -- What is kept stands in reverse, the last position first.
  induction xs generalizing kept with
  | nil => exact apart
  | cons next rest ih => exact ih (keepApart_apart apart next)

theorem mergePositions_apart (xs extra : List Exact) : Apart (mergePositions xs extra) := by
  have start : Apart ([] : List Exact).reverse := .nil
  exact foldl_keepApart_apart start _

end RuleAdvisor.Fuzzy
