import RuleAdvisor.Proofs.Counting.Positions

/-!
The next safe total. It is the least safe one above, a whole cycle above a total that is safe itself
and less than a cycle above any other, and none is left from the last total on. This holds for every
integer if nothing is rounded. On doubles it holds as long as the last total is at most `2 ^ 53`
above; further down there are totals of which it does not hold.
-/

namespace RuleAdvisor.Counting

open Exact (rat)
open Double (exact)
open IntegerCarrier

/-- The distance from `number` to the first of the integers that whole cycles lead from to
`last`. -/
structure IsGap (cycle last number gap : Int) : Prop where
  least : 1 ≤ gap
  most : gap ≤ cycle
  fits : number + gap ≤ last
  reaches : cycle ∣ last - (number + gap)
  first : ∀ m, number < m → m < number + gap → ¬ cycle ∣ last - m
  full_iff : gap = cycle ↔ cycle ∣ last - number

theorem isGap_rest {cycle last number : Int} (positive : 0 < cycle) (short : number < last) :
    IsGap cycle last number ((last - number - 1) % cycle + 1) := by
  have division := Int.emod_add_mul_ediv (last - number - 1) cycle
  have least := Int.emod_nonneg (last - number - 1) positive.ne'
  have most := Int.emod_lt_of_pos (last - number - 1) positive
  have cycles : 0 ≤ cycle * ((last - number - 1) / cycle) :=
    mul_nonneg positive.le (Int.ediv_nonneg (by omega) positive.le)
  generalize (last - number - 1) / cycle = count at division cycles
  generalize (last - number - 1) % cycle = rest at division least most ⊢
  have reaches : cycle ∣ last - (number + (rest + 1)) := ⟨count, by omega⟩
  constructor
  case least => omega
  case most => omega
  case fits => omega
  case reaches => exact reaches
  case first =>
    intro m above below also
    -- Two of them are at least a whole cycle apart.
    have apart := Int.le_of_dvd (by omega) (Int.dvd_sub also reaches)
    omega
  case full_iff =>
    constructor
    · intro full
      have once := Int.dvd_add reaches (⟨1, by omega⟩ : cycle ∣ rest + 1)
      rwa [show last - (number + (rest + 1)) + (rest + 1) = last - number by ring] at once
    · intro also
      have whole := Int.le_of_dvd (by omega) (Int.dvd_sub also reaches)
      omega

namespace Rules

/-- What the next safe total above an integer is, told by the integers that values stand for. -/
structure NextIsLeast {α : Type} [Number α] (value : α → Exact) (rules : Rules α) (total : α)
    (number : Int) : Prop where
  none_iff : rules.nextSafe? total = none ↔
    ∀ (other : α) (m : Int), value other = rat m → number < m → rules.isSafe other = false
  least : ∀ next, rules.nextSafe? total = some next → ∃ gap : Int,
    value next = rat (number + gap : Int) ∧ rules.isSafe next = true
      ∧ (∀ (other : α) (m : Int), value other = rat m → number < m → m < number + gap →
        rules.isSafe other = false)
      ∧ 1 ≤ gap ∧ rat gap ≤ value rules.longestTurn + 1
      ∧ (rat gap = value rules.longestTurn + 1 ↔ rules.isSafe total = true)

namespace Stores

variable {α : Type} [Number α] [IntegerCarrier α] {rules : Rules α} {target longestTurn : Int}
  (stored : rules.Stores target longestTurn) {total : α} {number : Int}
  (whole : Stands total number) (near : number < target → @Small α _ _ (target - 1 - number))

include stored near

theorem isSafe_above {other : α} {m : Int} (stands : Stands other m) (above : number ≤ m) :
    rules.isSafe other = true ↔ m < target ∧ longestTurn + 1 ∣ target - 1 - m := by
  apply stored.isSafe_iff stands
  intro short
  apply small_of_small (near (by omega))
  rw [abs_of_nonneg (by omega), abs_of_nonneg (by omega)]
  omega

theorem not_isSafe_above {other : α} {m : Int} (stands : Stands other m) (above : number ≤ m)
    (apart : ¬ (m < target ∧ longestTurn + 1 ∣ target - 1 - m)) : rules.isSafe other = false := by
  rw [← Bool.not_eq_true, stored.isSafe_above near stands above]
  exact apart

include whole

theorem nextIsLeast_of_last (last : target - 1 ≤ number) :
    rules.NextIsLeast value total number := by
  have none := stored.nextSafe?_of_last whole last
  constructor
  case none_iff =>
    refine iff_of_true none ?_
    intro other m stands above
    exact stored.not_isSafe_above near stands above.le (by omega)
  case least =>
    intro next found
    rw [none] at found
    cases found

theorem nextIsLeast_of_gap {found : α} {gap : Int}
    (distance : IsGap (longestTurn + 1) (target - 1) number gap)
    (result : rules.nextSafe? total = some found) (stands : Stands found (number + gap)) :
    rules.NextIsLeast value total number := by
  obtain ⟨least, most, fits, reaches, first, full⟩ := distance
  have foundSafe : rules.isSafe found = true :=
    (stored.isSafe_above near stands (by omega)).mpr ⟨by omega, reaches⟩
  -- The gap is compared with the cycle in rationals, where the sum is exact.
  have cycle : value rules.longestTurn + 1 = rat (longestTurn + 1 : Int) := by
    rw [stored.turnIs, Exact.literal_eq, Exact.rat_add]
    norm_cast
  constructor
  case none_iff =>
    rw [result]
    refine iff_of_false (fun none => nomatch none) ?_
    intro allUnsafe
    rw [allUnsafe found _ stands (by omega)] at foundSafe
    cases foundSafe
  case least =>
    intro next also
    obtain rfl : found = next := Option.some.inj (result.symm.trans also)
    refine ⟨gap, stands, foundSafe, ?_, least, ?_, ?_⟩
    · intro other m otherStands above below
      exact stored.not_isSafe_above near otherStands above.le fun both => first m above below both.2
    · rw [cycle, Exact.rat_le, Int.cast_le]
      exact most
    · rw [cycle, stored.isSafe_above near whole le_rfl, rat.injEq, Int.cast_inj, full,
        and_iff_right (by omega)]

theorem nextIsLeast : rules.NextIsLeast value total number := by
  rcases le_or_gt (target - 1) number with reached | short
  · exact stored.nextIsLeast_of_last whole near reached
  · obtain ⟨found, result, stands⟩ := stored.exists_nextSafe whole short (near (by omega))
    have cycle : 0 < longestTurn + 1 := by linarith [stored.limits.turnLeast]
    exact stored.nextIsLeast_of_gap whole near (isGap_rest cycle short) result stands

end Stores

/-- On rationals this holds for every integer, and on doubles for every one that the last total is
at most `2 ^ 53` above. -/
theorem nextSafe?_is_least :
    (∀ rules : Rules Exact, rules.WellFormed → ∀ number : Int,
      rules.NextIsLeast id (rat number) number)
    ∧ ∀ rules : Rules Float, rules.WellFormed → ∀ (total : Float) (number : Int),
      exact total = rat number → exact rules.lastTotal ≤ rat (number + 2 ^ 53 : Int) →
        rules.NextIsLeast exact total number := by
  constructor
  · intro rules valid number
    obtain ⟨target, longestTurn, stored⟩ := valid.exists_stored
    exact stored.nextIsLeast rfl fun _ => trivial
  · intro rules valid total number whole near
    obtain ⟨target, longestTurn, stored⟩ := valid.exists_stored
    have last : exact rules.lastTotal = rat (target - 1 : Int) := stored.stands_lastTotal
    rw [last, Exact.rat_le, Int.cast_le] at near
    refine stored.nextIsLeast whole fun short => small_of_abs_le ?_
    rw [abs_of_nonneg (by omega)]
    omega

/-- At 17 of 21, with three numbers a turn, the next safe total is 20 on both. -/
theorem nextSafe?_is_least_seventeen :
    let rules : Rules Exact := .whole 21 3
    let doubles : Rules Float := ⟨Number.ofNat 21, Number.ofNat 3⟩
    rules.WellFormed ∧ rules.NextIsLeast id (rat (17 : Int)) 17
      ∧ doubles.WellFormed ∧ doubles.NextIsLeast exact (Number.ofNat 17) 17
      ∧ rules.nextSafe? 17 = some 20
      ∧ doubles.nextSafe? (Number.ofNat 17) = some (Number.ofNat 20) := by
  intro rules doubles
  have valid : rules.WellFormed :=
    (Limits.stores (by constructor <;> norm_num)).wellFormed
  have doublesValid : doubles.WellFormed := by constructor <;> decide +kernel
  have near : exact doubles.lastTotal ≤ rat (17 + 2 ^ 53 : Int) := by decide +kernel
  obtain ⟨onRationals, onDoubles⟩ := nextSafe?_is_least
  exact ⟨valid, onRationals rules valid 17, doublesValid,
    onDoubles doubles doublesValid (Number.ofNat 17) 17 (by decide +kernel) near,
    by decide +kernel, by decide +kernel⟩

/-- From a total further down, the cycles to go back are rounded, and what is found is the total
itself. -/
theorem nextSafe?_stays_below :
    let rules : Rules Float := ⟨Number.ofNat 6, Number.ofNat 4⟩
    let total : Float := -Number.ofNat 9007199254740991
    rules.WellFormed ∧ exact total = rat (-9007199254740991 : Int)
      ∧ ¬ rules.NextIsLeast exact total (-9007199254740991) := by
  intro rules total
  have stands : exact total = rat (-9007199254740991 : Int) := by decide +kernel
  refine ⟨by constructor <;> decide +kernel, stands, ?_⟩
  intro isLeast
  have found : rules.nextSafe? total = some total := by decide +kernel
  obtain ⟨gap, above, -, -, least, -⟩ := isLeast.least total found
  rw [stands, rat.injEq, Int.cast_inj] at above
  omega

end Rules
end RuleAdvisor.Counting
