import Mathlib.Tactic.Ring
import RuleAdvisor.Counting.Choice
import RuleAdvisor.Proofs.Checks
import RuleAdvisor.Proofs.Number.Integers

/-!
Positions in whole numbers, on every carrier that computes with them. Rules that pass their check
are two integers, and so is every total that can be played from; the safe totals are those whose
distance to the last one is divided by `longestTurn + 1`, and from any other total the rest of that
division is the count that leads to a safe one.
-/

namespace RuleAdvisor.Counting

open Exact (rat nan)
open IntegerCarrier

/-- What rules have to be, said without regard to the issues they may have. -/
structure Rules.WellFormed {α : Type} [Number α] (rules : Rules α) : Prop where
  targetWhole : Number.isInteger rules.target = true
  targetLeast : 2 ≤ rules.target
  targetGreatest : rules.target ≤ 1000
  turnWhole : Number.isInteger rules.longestTurn = true
  turnLeast : 1 ≤ rules.longestTurn
  turnGreatest : rules.longestTurn ≤ 100
  turnBelowTarget : rules.longestTurn < rules.target

structure Limits (target longestTurn : Int) : Prop where
  targetLeast : 2 ≤ target
  targetGreatest : target ≤ 1000
  turnLeast : 1 ≤ longestTurn
  turnGreatest : longestTurn ≤ 100
  turnBelowTarget : longestTurn < target

def Rules.whole (target longestTurn : Int) : Rules Exact := ⟨rat target, rat longestTurn⟩

section Checks

variable {α : Type} [Number α]

theorem Rules.isUsable_issues (rules : Rules α) :
    isUsable rules.issues = true ↔
      isUsable (Setting.checkIntegerRange "target" ⟨2, 1000, none, none⟩ rules.target) = true
        ∧ isUsable (Setting.checkIntegerRange "maxSay" ⟨1, 100, none, none⟩ rules.longestTurn)
          = true
        ∧ ¬ rules.target ≤ rules.longestTurn := by
  simp only [Rules.issues, isUsable_append, Bool.and_eq_true]
  split
  · next both => simp [both]
  · next notBoth =>
      rw [isUsable_append, Bool.and_eq_true]
      constructor
      · intro passed
        exact ⟨passed.1, passed.2, fun reached => notBoth ⟨passed, reached⟩⟩
      · rintro ⟨targetPasses, turnPasses, _⟩
        exact ⟨targetPasses, turnPasses⟩

theorem Rules.check_eq_ok_iff_usable (rules : Rules α) :
    rules.check = .ok () ↔ isUsable rules.issues = true := by
  unfold Rules.check
  split <;> simp [*]

theorem Rules.checkTotal_eq_ok_iff (rules : Rules α) (total : α) :
    rules.checkTotal total = .ok ()
      ↔ Number.isInteger total = true ∧ ¬ total < 0 ∧ ¬ rules.lastTotal < total := by
  unfold Rules.checkTotal
  split
  · next refused =>
      simp only [reduceCtorEq, false_iff, not_and_or, not_not]
      simpa using refused
  · next passes => simpa using passes

/-- An integer from 0 to the last total. -/
structure Rules.IsPlayable (rules : Rules α) (total : α) : Prop where
  whole : Number.isInteger total = true
  least : 0 ≤ total
  last : total ≤ rules.lastTotal

end Checks

variable {α : Type} [Number α] [IntegerCarrier α] {rules : Rules α} {target longestTurn : Int}

/-- The two integers that rules are. -/
structure Rules.Stores (rules : Rules α) (target longestTurn : Int) : Prop where
  targetIs : Stands rules.target target
  turnIs : Stands rules.longestTurn longestTurn
  limits : Limits target longestTurn

theorem Limits.stores (limits : Limits target longestTurn) :
    (Rules.whole target longestTurn).Stores target longestTurn :=
  ⟨rfl, rfl, limits⟩

theorem Rules.IsPlayable.check {total : α} (playable : rules.IsPlayable total) :
    rules.checkTotal total = .ok () := by
  obtain ⟨whole, least, last⟩ := playable
  rw [le_iff] at least last
  rw [checkTotal_eq_ok_iff, lt_iff total 0, lt_iff rules.lastTotal total]
  exact ⟨whole, fun below => Exact.not_le_of_below below least,
    fun beyond => Exact.not_le_of_below beyond last⟩

theorem Rules.WellFormed.exists_stored (valid : rules.WellFormed) :
    ∃ target longestTurn : Int, rules.Stores target longestTurn := by
  obtain ⟨targetWhole, targetLeast, targetMost, turnWhole, turnLeast, turnMost, below⟩ := valid
  obtain ⟨target, targetIs⟩ := (isInteger_iff _).mp targetWhole
  obtain ⟨longestTurn, turnIs⟩ := (isInteger_iff _).mp turnWhole
  rw [le_int_iff (stands_natural (by decide)) targetIs] at targetLeast
  rw [le_int_iff targetIs (stands_natural (by decide))] at targetMost
  rw [le_int_iff stands_one turnIs] at turnLeast
  rw [le_int_iff turnIs (stands_natural (by decide))] at turnMost
  rw [lt_int_iff turnIs targetIs] at below
  exact ⟨target, longestTurn, targetIs, turnIs, targetLeast, targetMost, turnLeast, turnMost, below⟩

/-- The quotient rounded up, less one, counts the whole cycles that fit strictly below. -/
theorem ceil_div_sub_one (remaining cycle : Int) (positive : 0 < cycle) :
    ⌈(remaining : Rat) / cycle⌉ - 1 = (remaining - 1) / cycle := by
  have cyclePositive : (0 : Rat) < cycle := by exact_mod_cast positive
  have below : (remaining - 1) / cycle * cycle < remaining := by
    have := Int.ediv_mul_le (remaining - 1) positive.ne'
    omega
  have above : remaining ≤ ((remaining - 1) / cycle + 1) * cycle := by
    have := Int.lt_ediv_add_one_mul_self (remaining - 1) positive
    omega
  have rounded : ⌈(remaining : Rat) / cycle⌉ = (remaining - 1) / cycle + 1 := by
    rw [Int.ceil_eq_iff]
    constructor
    · rw [lt_div_iff₀ cyclePositive]
      push_cast
      rw [add_sub_cancel_right]
      exact_mod_cast below
    · rw [div_le_iff₀ cyclePositive]
      exact_mod_cast above
  rw [rounded, add_sub_cancel_right]

theorem rest_succ (distance cycle : Int) :
    distance % cycle = ((distance - 1) % cycle + 1) % cycle := by
  rw [Int.emod_add_emod, sub_add_cancel]

namespace Rules.Stores

variable (stored : rules.Stores target longestTurn)

include stored

theorem wellFormed : rules.WellFormed := by
  obtain ⟨targetIs, turnIs, targetLeast, targetMost, turnLeast, turnMost, below⟩ := stored
  constructor
  case targetWhole => exact (isInteger_iff _).mpr ⟨target, targetIs⟩
  case targetLeast => exact (le_int_iff (stands_natural (by decide)) targetIs).mpr targetLeast
  case targetGreatest => exact (le_int_iff targetIs (stands_natural (by decide))).mpr targetMost
  case turnWhole => exact (isInteger_iff _).mpr ⟨longestTurn, turnIs⟩
  case turnLeast => exact (le_int_iff stands_one turnIs).mpr turnLeast
  case turnGreatest => exact (le_int_iff turnIs (stands_natural (by decide))).mpr turnMost
  case turnBelowTarget => exact (lt_int_iff turnIs targetIs).mpr below

theorem check : rules.check = .ok () := by
  obtain ⟨targetIs, turnIs, targetLeast, targetMost, turnLeast, turnMost, below⟩ := stored
  rw [check_eq_ok_iff_usable, isUsable_issues, isUsable_checkIntegerRange,
    isUsable_checkIntegerRange]
  refine ⟨fun _ => ⟨(isInteger_iff _).mpr ⟨target, targetIs⟩, ?_, ?_⟩,
    fun _ => ⟨(isInteger_iff _).mpr ⟨longestTurn, turnIs⟩, ?_, ?_⟩, ?_⟩
  · rw [lt_int_iff targetIs (stands_natural (by decide)), not_lt]
    exact targetLeast
  · rw [lt_int_iff (stands_natural (by decide)) targetIs, not_lt]
    exact targetMost
  · rw [lt_int_iff turnIs stands_one, not_lt]
    exact turnLeast
  · rw [lt_int_iff (stands_natural (by decide)) turnIs, not_lt]
    exact turnMost
  · rw [le_int_iff targetIs turnIs, not_le]
    exact below

theorem stands_lastTotal : Stands rules.lastTotal (target - 1) := by
  obtain ⟨targetLeast, targetMost, -⟩ := stored.limits
  exact value_sub stored.targetIs stands_one (small_of_le (by omega) (by omega))

theorem stands_cycle : Stands (rules.longestTurn + 1) (longestTurn + 1) := by
  obtain ⟨-, -, turnLeast, turnMost, -⟩ := stored.limits
  exact value_add stored.turnIs stands_one (small_of_le (by omega) (by omega))

theorem checkTotal_eq_ok_iff (total : α) :
    rules.checkTotal total = .ok () ↔ rules.IsPlayable total := by
  refine ⟨fun passes => ?_, IsPlayable.check⟩
  obtain ⟨isWhole, notBelow, notBeyond⟩ := (Rules.checkTotal_eq_ok_iff rules total).mp passes
  obtain ⟨number, whole⟩ := (isInteger_iff total).mp isWhole
  rw [lt_int_iff whole stands_zero, not_lt, ← le_int_iff stands_zero whole] at notBelow
  rw [lt_int_iff stored.stands_lastTotal whole, not_lt,
    ← le_int_iff whole stored.stands_lastTotal] at notBeyond
  exact ⟨isWhole, notBelow, notBeyond⟩

theorem isPlayable_iff (total : α) :
    rules.IsPlayable total ↔ ∃ played : Nat, Stands total played ∧ (played : Int) < target := by
  constructor
  · rintro ⟨isWhole, least, last⟩
    obtain ⟨number, whole⟩ := (isInteger_iff total).mp isWhole
    rw [le_int_iff stands_zero whole] at least
    rw [le_int_iff whole stored.stands_lastTotal] at last
    obtain ⟨played, rfl⟩ := Int.eq_ofNat_of_zero_le least
    exact ⟨played, whole, by omega⟩
  · rintro ⟨played, whole, short⟩
    refine ⟨(isInteger_iff total).mpr ⟨_, whole⟩, ?_, ?_⟩
    · rw [le_int_iff stands_zero whole]
      exact Int.natCast_nonneg played
    · rw [le_int_iff whole stored.stands_lastTotal]
      omega

section Totals

variable {total : α} {number : Int} (whole : Stands total number)

include whole

theorem isSafe_iff (near : number < target → @Small α _ _ (target - 1 - number)) :
    rules.isSafe total = true ↔ number < target ∧ longestTurn + 1 ∣ target - 1 - number := by
  have cycle : longestTurn + 1 ≠ 0 := by linarith [stored.limits.turnLeast]
  show (decide (0 ≤ rules.lastTotal - total)
    && Number.isMultiple (rules.lastTotal - total) (rules.longestTurn + 1)) = true ↔ _
  rw [Bool.and_eq_true, decide_eq_true_iff]
  by_cases short : number < target
  · have remaining := value_sub stored.stands_lastTotal whole (near short)
    rw [le_int_iff stands_zero remaining, isMultiple_iff remaining stored.stands_cycle cycle]
    exact and_congr (iff_of_true (by omega) short) Iff.rfl
  · have below := sub_neg stored.stands_lastTotal whole (by omega)
    have negative : ¬ 0 ≤ rules.lastTotal - total := by
      rw [le_iff, stands_zero, Int.cast_zero]
      exact Exact.not_le_of_below (by simpa using below)
    exact iff_of_false (fun both => negative both.1) (fun both => short both.1)

theorem nextSafe?_of_last (last : target - 1 ≤ number) : rules.nextSafe? total = none :=
  if_pos ((le_int_iff stored.stands_lastTotal whole).mpr last)

theorem exists_nextSafe (short : number < target - 1) (near : @Small α _ _ (target - 1 - number)) :
    ∃ next, rules.nextSafe? total = some next
      ∧ Stands next (number + ((target - 1 - number - 1) % (longestTurn + 1) + 1)) := by
  obtain ⟨targetLeast, targetMost, turnLeast, turnMost, -⟩ := stored.limits
  have notReached : ¬ rules.lastTotal ≤ total := by
    rw [le_int_iff stored.stands_lastTotal whole]
    omega
  have cycle : 0 < longestTurn + 1 := by omega
  have remaining := value_sub stored.stands_lastTotal whole near
  obtain ⟨v, quotient, roundedUp⟩ :=
    exists_quotient remaining stored.stands_cycle (by omega) near (by omega) (by omega)
  have counted := ceil_div_sub_one (target - 1 - number) (longestTurn + 1) cycle
  have division := Int.emod_add_mul_ediv (target - 1 - number - 1) (longestTurn + 1)
  have least := Int.emod_nonneg (target - 1 - number - 1) cycle.ne'
  have cycles : 0 ≤ (target - 1 - number - 1) / (longestTurn + 1) :=
    Int.ediv_nonneg (by omega) cycle.le
  rw [← roundedUp] at counted
  generalize (target - 1 - number - 1) / (longestTurn + 1) = count at counted division cycles
  generalize (target - 1 - number - 1) % (longestTurn + 1) = rest at division least ⊢
  -- The cycles that fit below the last total take up no more than its distance.
  have size : count ≤ (longestTurn + 1) * count := le_mul_of_one_le_left cycles (by omega)
  rw [mul_comm] at size division
  have within {n : Int} (nonneg : 0 ≤ n) (most : n ≤ target - 1 - number) : @Small α _ _ n := by
    apply small_of_small near
    rwa [abs_of_nonneg nonneg, abs_of_nonneg (by omega)]
  have fits : @Small α _ _ (⌈v⌉ - 1) := by
    rw [counted]
    exact within cycles (by omega)
  have rounds := value_sub (value_ceil quotient) stands_one fits
  rw [counted] at rounds
  have taken := value_mul rounds stored.stands_cycle (within (by omega) (by omega))
  have next := value_sub stored.stands_lastTotal taken (small_of_between near (by omega) (by omega))
  refine ⟨_, if_neg notReached, next.trans ?_⟩
  congr 2
  omega

end Totals

section Playable

variable {total : α} {played : Nat} (whole : Stands total played)

include whole

theorem isSafe_iff_dvd (short : (played : Int) < target) :
    rules.isSafe total = true ↔ longestTurn + 1 ∣ target - 1 - (played : Int) := by
  have targetMost := stored.limits.targetGreatest
  rw [stored.isSafe_iff whole fun _ => small_of_le (by omega) (by omega), and_iff_right short]

/-- The distance to the next safe total is the count that wins, unless it is a full cycle. -/
theorem exists_distance (early : (played : Int) < target - 1) :
    ∃ distance, Stands distance ((target - 1 - (played : Int) - 1) % (longestTurn + 1) + 1)
      ∧ rules.winningCount? total
        = if (target - 1 - (played : Int) - 1) % (longestTurn + 1) < longestTurn then some distance
          else none := by
  obtain ⟨-, targetMost, turnLeast, turnMost, -⟩ := stored.limits
  obtain ⟨next, found, stands⟩ :=
    stored.exists_nextSafe whole early (small_of_le (by omega) (by omega))
  have least := Int.emod_nonneg (target - 1 - (played : Int) - 1) (by omega : longestTurn + 1 ≠ 0)
  have most := Int.emod_lt_of_pos (target - 1 - (played : Int) - 1) (by omega : 0 < longestTurn + 1)
  generalize (target - 1 - (played : Int) - 1) % (longestTurn + 1) = rest at stands least most ⊢
  have distance := value_sub stands whole (small_of_le (by omega) (by omega))
  rw [add_sub_cancel_left] at distance
  refine ⟨next - total, distance, ?_⟩
  simp only [winningCount?, found, le_int_iff stands_one distance,
    le_int_iff distance stored.turnIs]
  exact if_congr (by omega) rfl rfl

variable (short : (played : Int) < target)

include short

theorem winningCount?_of_safe (safe : longestTurn + 1 ∣ target - 1 - (played : Int)) :
    rules.winningCount? total = none := by
  rcases (Int.le_sub_one_of_lt short).eq_or_lt with last | early
  · simp only [winningCount?, stored.nextSafe?_of_last whole last.ge]
  · have turnLeast := stored.limits.turnLeast
    obtain ⟨distance, -, found⟩ := stored.exists_distance whole early
    have least := Int.emod_nonneg (target - 1 - (played : Int) - 1) (by omega : longestTurn + 1 ≠ 0)
    rw [Int.dvd_iff_emod_eq_zero, rest_succ] at safe
    rw [found, if_neg]
    generalize (target - 1 - (played : Int) - 1) % (longestTurn + 1) = rest at *
    intro fewer
    rw [Int.emod_eq_of_lt (by omega) (by omega)] at safe
    omega

theorem exists_winningCount (notSafe : ¬ longestTurn + 1 ∣ target - 1 - (played : Int)) :
    ∃ count, rules.winningCount? total = some count
      ∧ Stands count ((target - 1 - (played : Int)) % (longestTurn + 1)) := by
  have turnLeast := stored.limits.turnLeast
  have early : (played : Int) < target - 1 := by
    by_contra last
    exact notSafe ⟨0, by omega⟩
  obtain ⟨distance, stands, found⟩ := stored.exists_distance whole early
  have least := Int.emod_nonneg (target - 1 - (played : Int) - 1) (by omega : longestTurn + 1 ≠ 0)
  have most := Int.emod_lt_of_pos (target - 1 - (played : Int) - 1) (by omega : 0 < longestTurn + 1)
  rw [Int.dvd_iff_emod_eq_zero, rest_succ] at notSafe
  rw [rest_succ]
  generalize (target - 1 - (played : Int) - 1) % (longestTurn + 1) = rest at *
  have fewer : rest < longestTurn := by
    by_contra full
    obtain rfl : rest = longestTurn := by omega
    exact notSafe Int.emod_self
  rw [if_pos fewer] at found
  rw [Int.emod_eq_of_lt (by omega) (by omega)]
  exact ⟨distance, found, stands⟩

end Playable

end Rules.Stores

/-- The rest of the way to the last total is a count within the limits, and it leads to a safe
total short of the target. -/
theorem exists_winning_count (positive : 1 ≤ longestTurn) {total : Nat}
    (short : (total : Int) < target) (notSafe : ¬ longestTurn + 1 ∣ target - 1 - (total : Int)) :
    ∃ said : Nat, (target - 1 - (total : Int)) % (longestTurn + 1) = said
      ∧ 1 ≤ said ∧ said ≤ longestTurn ∧ ((total + said : Nat) : Int) < target
      ∧ longestTurn + 1 ∣ target - 1 - ((total + said : Nat) : Int) := by
  have cycle : (0 : Int) < longestTurn + 1 := by omega
  have nonzero := mt Int.dvd_of_emod_eq_zero notSafe
  have least := Int.emod_nonneg (target - 1 - (total : Int)) cycle.ne'
  have most := Int.emod_lt_of_pos (target - 1 - (total : Int)) cycle
  -- The rest is no longer than the whole way, of which it is a part.
  have within : (target - 1 - (total : Int)) % (longestTurn + 1) ≤ target - 1 - total := by
    have cycles := mul_nonneg cycle.le
      (Int.ediv_nonneg (by omega : 0 ≤ target - 1 - (total : Int)) cycle.le)
    have division := Int.emod_add_mul_ediv (target - 1 - (total : Int)) (longestTurn + 1)
    linarith
  have reached := Int.dvd_self_sub_emod (x := target - 1 - (total : Int)) (m := longestTurn + 1)
  -- From here on the count is any number these facts hold of.
  generalize (target - 1 - (total : Int)) % (longestTurn + 1) = rest at *
  obtain ⟨said, rfl⟩ := Int.eq_ofNat_of_zero_le least
  have left : target - 1 - ((total + said : Nat) : Int) = target - 1 - (total : Int) - said := by
    push_cast
    ring
  refine ⟨said, rfl, by omega, by omega, by omega, ?_⟩
  rw [left]
  exact reached

/-- No count is as long as a cycle, so the one that reaches a safe total is the rest of the way. -/
theorem rest_of_reaches {total said : Nat} (most : (said : Int) ≤ longestTurn)
    (reached : longestTurn + 1 ∣ target - 1 - ((total + said : Nat) : Int)) :
    (target - 1 - (total : Int)) % (longestTurn + 1) = said := by
  obtain ⟨cycles, way⟩ := reached
  have whole : target - 1 - (total : Int) = said + (longestTurn + 1) * cycles := by omega
  rw [whole, Int.add_mul_emod_self_left, Int.emod_eq_of_lt (by omega) (by omega)]

theorem eq_of_reaches {total said other : Nat} (most : (said : Int) ≤ longestTurn)
    (otherMost : (other : Int) ≤ longestTurn)
    (reached : longestTurn + 1 ∣ target - 1 - ((total + said : Nat) : Int))
    (otherReached : longestTurn + 1 ∣ target - 1 - ((total + other : Nat) : Int)) :
    other = said :=
  Nat.cast_inj.mp ((rest_of_reaches otherMost otherReached).symm.trans
    (rest_of_reaches most reached))

theorem not_reaches_of_safe {total said : Nat} (least : 1 ≤ said)
    (most : (said : Int) ≤ longestTurn)
    (safe : longestTurn + 1 ∣ target - 1 - (total : Int)) :
    ¬ longestTurn + 1 ∣ target - 1 - ((total + said : Nat) : Int) := by
  intro reached
  have rest := rest_of_reaches most reached
  rw [Int.emod_eq_zero_of_dvd safe] at rest
  omega

end RuleAdvisor.Counting
