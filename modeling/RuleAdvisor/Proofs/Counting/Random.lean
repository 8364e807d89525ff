import Mathlib.Order.Interval.Set.Defs
import RuleAdvisor.Proofs.Counting.Choosing

/-!
Counts taken at random. Those that may be drawn are the turns that stop short of the target, or 1
alone where there is none, on rationals and on doubles alike. If nothing is rounded, a draw cuts
`[0, 1)` into as many equal parts, and each count is what the values of its own part give.
-/

namespace RuleAdvisor.Counting

open Exact (rat)
open Double (exact)
open IntegerCarrier

/-- Each of the counts from 1 to `most`, and nothing else, is drawn, and the values that give it are
an interval of the same length for all of them. -/
structure DrawsEvenly (most : Nat) : Prop where
  positive : 0 < most
  drawn_iff : ∀ (source : RandomSource Exact) (r : Rat), source.next.1 = rat r → 0 ≤ r → r < 1 →
    ∀ k : Int, (drawCount (rat most) source).1 = .ok (rat k) ↔ (k - 1) / most ≤ r ∧ r < k / most
  drawn : ∀ (source : RandomSource Exact) (r : Rat), source.next.1 = rat r → 0 ≤ r → r < 1 →
    ∃ count, (drawCount (rat most) source).1 = .ok count
  within : ∀ (source : RandomSource Exact) (count : Exact),
    (drawCount (rat most) source).1 = .ok count → ∃ k : Nat, count = rat k ∧ 1 ≤ k ∧ k ≤ most
  interval : ∀ k : Nat, 1 ≤ k → k ≤ most →
    {r : Rat | (drawCount (rat most) (.constant (rat r))).1 = .ok (rat k)}
      = Set.Ico ((k - 1) / most : Rat) ((k - 1) / most + 1 / most)

theorem drawCount_eq_ok_iff (most : Nat) (source : RandomSource Exact) (count : Exact) :
    (drawCount (rat most) source).1 = .ok count
      ↔ ∃ r : Rat, source.next.1 = rat r ∧ 0 ≤ r ∧ r < 1
        ∧ count = rat (1 + ⌊r * most⌋ : Int) := by
  have counted (r : Rat) : 1 + Number.floor (rat r * rat most) = rat (1 + ⌊r * most⌋ : Int) := by
    simp
  show countFor (rat most) source.next.1 = .ok count ↔ _
  rw [countFor_eq]
  by_cases within : 0 ≤ source.next.1 ∧ source.next.1 < 1
  · obtain ⟨r, given, nonneg, below⟩ := (Exact.within_unit_iff _).mp within
    rw [if_pos within, given, Except.ok.injEq, counted, eq_comm]
    simp [nonneg, below]
  · rw [if_neg within]
    refine iff_of_false (fun refused => nomatch refused) ?_
    rintro ⟨r, given, nonneg, below, -⟩
    exact within ((Exact.within_unit_iff _).mpr ⟨r, given, nonneg, below⟩)

section Draws

variable {most : Nat} (positive : 0 < most)

include positive

/-- The whole part of `r * most` numbers the part that `r` lies in, from 0 on. -/
theorem one_add_floor_eq_iff (r : Rat) (k : Int) :
    1 + ⌊r * most⌋ = k ↔ (k - 1) / most ≤ r ∧ r < k / most := by
  have divisor : (0 : Rat) < most := by exact_mod_cast positive
  rw [← eq_sub_iff_add_eq', Int.floor_eq_iff, div_le_iff₀ divisor, lt_div_iff₀ divisor]
  push_cast
  rw [sub_add_cancel]

theorem drawCount_eq_part_iff {source : RandomSource Exact} {r : Rat}
    (given : source.next.1 = rat r) (nonneg : 0 ≤ r) (belowOne : r < 1) (k : Int) :
    (drawCount (rat most) source).1 = .ok (rat k) ↔ (k - 1) / most ≤ r ∧ r < k / most := by
  have drawn := (drawCount_eq_ok_iff most source _).mpr ⟨r, given, nonneg, belowOne, rfl⟩
  rw [drawn, Except.ok.injEq, rat.injEq, Int.cast_inj, one_add_floor_eq_iff positive]

theorem within_of_part {r : Rat} {k : Nat} (least : 1 ≤ k) (atMost : k ≤ most)
    (lower : (k - 1) / most ≤ r) (upper : r < k / most) : 0 ≤ r ∧ r < 1 := by
  have divisor : (0 : Rat) < most := by exact_mod_cast positive
  have least : (1 : Rat) ≤ k := by exact_mod_cast least
  have atMost : (k : Rat) ≤ most := by exact_mod_cast atMost
  constructor
  · exact (div_nonneg (sub_nonneg.mpr least) divisor.le).trans lower
  · exact upper.trans_le ((div_le_one divisor).mpr atMost)

theorem drawsEvenly : DrawsEvenly most := by
  constructor
  case positive => exact positive
  case drawn_iff =>
    intro source r given nonneg belowOne k
    exact drawCount_eq_part_iff positive given nonneg belowOne k
  case drawn =>
    intro source r given nonneg belowOne
    exact ⟨_, (drawCount_eq_ok_iff most source _).mpr ⟨r, given, nonneg, belowOne, rfl⟩⟩
  case within =>
    intro source count result
    obtain ⟨r, -, nonneg, belowOne, rfl⟩ := (drawCount_eq_ok_iff most source count).mp result
    have divisor : (0 : Rat) < most := by exact_mod_cast positive
    have least := Int.floor_nonneg.mpr (mul_nonneg nonneg divisor.le)
    -- A whole part that reached the greatest count would need a value of 1.
    have less : ⌊r * most⌋ < most := by
      rw [Int.floor_lt, Int.cast_natCast]
      exact mul_lt_of_lt_one_left divisor belowOne
    obtain ⟨part, same⟩ := Int.eq_ofNat_of_zero_le least
    rw [same] at less ⊢
    exact ⟨1 + part, by push_cast; rfl, by omega, by omega⟩
  case interval =>
    intro k least atMost
    ext r
    rw [Set.mem_ofPred_eq, Set.mem_Ico, ← add_div, sub_add_cancel]
    constructor
    · intro drawn
      obtain ⟨_, given, nonneg, belowOne, -⟩ := (drawCount_eq_ok_iff most _ _).mp drawn
      cases given
      exact (drawCount_eq_part_iff positive rfl nonneg belowOne k).mp drawn
    · intro part
      obtain ⟨nonneg, belowOne⟩ := within_of_part positive least atMost part.1 part.2
      exact (drawCount_eq_part_iff positive rfl nonneg belowOne k).mpr part

end Draws

namespace Rules

/-- What may be drawn at a total, told by the numbers that values stand for. A draw is out of as
many counts as the greatest one stands for, and its product is not rounded. -/
structure DrawsTurns {α : Type} [Number α] (value : α → Exact) (rules : Rules α) (total : α) :
    Prop where
  /-- Before the last total, the turns that stop short of the target. -/
  early : total < rules.lastTotal → ∀ count, IsCount (rules.mostAtRandom total) count
    ↔ rules.IsTurn count ∧ total + count < rules.target
  last : ¬ total < rules.lastTotal → ∀ count, IsCount (rules.mostAtRandom total) count
    ↔ value count = 1
  evenly : ∃ most : Nat, value (rules.mostAtRandom total) = rat most ∧ DrawsEvenly most

theorem Stores.drawsTurns {α : Type} [Number α] [IntegerCarrier α] {rules : Rules α}
    {target longestTurn : Int} (stored : rules.Stores target longestTurn) {total : α} {number : Nat}
    (whole : Stands total number) (short : (number : Int) < target) :
    rules.DrawsTurns value total := by
  obtain ⟨-, targetMost, turnLeast, turnMost, -⟩ := stored.limits
  have most := stored.stands_mostAtRandom whole short
  have earlyIff := lt_int_iff whole stored.stands_lastTotal
  have shortIff {count : α} {said : Int} (stands : Stands count said) (least : 1 ≤ said)
      (within : said ≤ longestTurn) : total + count < rules.target ↔ number + said < target :=
    lt_int_iff (value_add whole stands (small_of_le (by omega) (by omega))) stored.targetIs
  constructor
  case early =>
    intro early count
    rw [earlyIff] at early
    rw [isTurn_iff_isCount, isCount_iff most, isCount_iff stored.turnIs]
    constructor
    · rintro ⟨said, stands, least, atMost⟩
      have within : said ≤ longestTurn := by omega
      exact ⟨⟨said, stands, least, within⟩, (shortIff stands least within).mpr (by omega)⟩
    · rintro ⟨⟨said, stands, least, within⟩, stopsShort⟩
      rw [shortIff stands least within] at stopsShort
      exact ⟨said, stands, least, by omega⟩
  case last =>
    intro last count
    rw [earlyIff] at last
    rw [isCount_iff most, Exact.literal_eq]
    constructor
    · rintro ⟨said, stands, least, atMost⟩
      obtain rfl : said = 1 := by omega
      exact stands
    · exact fun stands => ⟨1, stands, le_refl 1, by omega⟩
  case evenly =>
    obtain ⟨greatest, same⟩ := Int.eq_ofNat_of_zero_le
      (zero_le_one.trans (le_max_left 1 (min longestTurn (target - 1 - number))))
    rw [same] at most
    exact ⟨greatest, most, drawsEvenly (by omega)⟩

theorem WellFormed.drawsTurns {α : Type} [Number α] [IntegerCarrier α] {rules : Rules α}
    (valid : rules.WellFormed) {total : α} (playable : rules.IsPlayable total) :
    rules.DrawsTurns value total := by
  obtain ⟨target, longestTurn, stored⟩ := valid.exists_stored
  obtain ⟨played, whole, short⟩ := (stored.isPlayable_iff total).mp playable
  exact stored.drawsTurns whole short

/-- On rationals and on doubles, the counts up to the greatest to take at random are the turns that
do not end the round, or 1 alone at the last total, and a draw gives each of them an equal part. -/
theorem draws_turns_evenly :
    (∀ rules : Rules Exact, rules.WellFormed → ∀ total, rules.IsPlayable total →
      rules.DrawsTurns id total)
    ∧ ∀ rules : Rules Float, rules.WellFormed → ∀ total, rules.IsPlayable total →
      rules.DrawsTurns exact total := by
  constructor
  · intro rules valid total playable
    exact valid.drawsTurns playable
  · intro rules valid total playable
    exact valid.drawsTurns playable

/-- At 18 of 21 a third number would end the round, so one or two are spoken, each for one half of
the values. -/
theorem draws_turns_evenly_eighteen :
    let rules : Rules Exact := .whole 21 3
    let doubles : Rules Float := ⟨Number.ofNat 21, Number.ofNat 3⟩
    rules.WellFormed ∧ rules.IsPlayable 18 ∧ rules.DrawsTurns id 18
      ∧ doubles.WellFormed ∧ doubles.IsPlayable (Number.ofNat 18)
      ∧ doubles.DrawsTurns exact (Number.ofNat 18)
      ∧ rules.mostAtRandom 18 = rat 2
      ∧ ∀ r, (drawCount (rat 2) (.constant (rat r))).1 = .ok (rat 2) ↔ 1 / 2 ≤ r ∧ r < 1 := by
  intro rules doubles
  have valid : rules.WellFormed :=
    (Limits.stores (by constructor <;> norm_num)).wellFormed
  have playable : rules.IsPlayable 18 := by constructor <;> decide +kernel
  have doublesValid : doubles.WellFormed := by constructor <;> decide +kernel
  have doublesPlayable : doubles.IsPlayable (Number.ofNat 18) := by
    constructor <;> decide +kernel
  obtain ⟨onRationals, onDoubles⟩ := draws_turns_evenly
  have draws := onRationals rules valid 18 playable
  have most : rules.mostAtRandom 18 = rat 2 := by decide +kernel
  obtain ⟨n, same, evenly⟩ := draws.evenly
  obtain rfl : n = 2 := Nat.cast_inj.mp (rat.inj (same.symm.trans most))
  refine ⟨valid, playable, draws, doublesValid, doublesPlayable,
    onDoubles doubles doublesValid _ doublesPlayable, most, fun r => ?_⟩
  have half := Set.ext_iff.mp (evenly.interval 2 one_le_two le_rfl) r
  norm_num [Set.mem_Ico] at half
  exact half

end Rules
end RuleAdvisor.Counting
