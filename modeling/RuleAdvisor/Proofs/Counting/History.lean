import Mathlib.Algebra.Group.Action.Defs
import Mathlib.Algebra.Order.BigOperators.Group.List
import RuleAdvisor.Proofs.Counting.Turns

/-!
The books of a round. Whatever is attempted, the history tells all numbers from 1 to the total
once each, by players in turn, and the round is over exactly when the target has been spoken. A
round that is over never changes again.
-/

namespace RuleAdvisor.Counting

open IntegerCarrier

@[simp] theorem Player.other_other (player : Player) : player.other.other = player := by
  cases player <;> rfl

def Player.inTurn (first : Player) (index : Nat) : Player :=
  if index % 2 = 0 then first else first.other

theorem Player.inTurn_succ (first : Player) (index : Nat) :
    first.inTurn (index + 1) = (first.inTurn index).other := by
  simp only [Player.inTurn]
  rcases Nat.mod_two_eq_zero_or_one index with even | odd
  · simp [even, Nat.add_mod]
  · simp [odd, Nat.add_mod]

section Books

variable {α : Type} [Number α] [IntegerCarrier α]

/-- What the record of a round says, and how its total, turn and loser follow from it. -/
structure Round.Consistent (rules : Rules α) (first : Player) (round : Round α) : Prop where
  totalLeast : 0 ≤ round.total
  totalMost : round.total ≤ rules.target
  spoken : ∃ total : Nat, Stands round.total total
    ∧ round.history.flatMap Turn.spoken = wholeAfter 0 total
  counts : ∀ turn ∈ round.history, ∃ count : Nat, Stands turn.count count ∧ 1 ≤ turn.count
    ∧ turn.count ≤ rules.longestTurn ∧ turn.spoken.length = count
  players : round.history.map Turn.player = (List.range round.history.length).map first.inTurn
  toMove : round.toMove = first.inTurn round.history.length
  ended : round.loser.isSome ↔ round.total = rules.target
  loser : ∀ player, round.loser = some player →
    round.history.getLast?.map Turn.player = some player
      ∧ round.winner = some player.other

namespace Round

variable {rules : Rules α} {target longestTurn : Int} (stored : rules.Stores target longestTurn)
  {first : Player} {round : Round α}

include stored

theorem consistent_start (first : Player) : (Round.start first).Consistent rules first := by
  have targetLeast := stored.limits.targetLeast
  constructor
  case totalLeast => exact (le_int_iff stands_zero stands_zero).mpr le_rfl
  case totalMost => exact (le_int_iff stands_zero stored.targetIs).mpr (by omega)
  case spoken => exact ⟨0, stands_zero, rfl⟩
  case counts => simp [start]
  case players => rfl
  case toMove => rfl
  case ended =>
    refine iff_of_false Bool.false_ne_true fun same => ?_
    have zero := (eq_int_iff stands_zero stored.targetIs (by omega)).mp same
    omega
  case loser => simp [start]

theorem Consistent.exists_total (books : round.Consistent rules first) :
    ∃ total : Nat, Stands round.total total ∧ (total : Int) ≤ target
      ∧ (round.loser = none ↔ (total : Int) < target) := by
  have targetLeast := stored.limits.targetLeast
  obtain ⟨total, whole, -⟩ := books.spoken
  have atMost := (le_int_iff whole stored.targetIs).mp books.totalMost
  refine ⟨total, whole, atMost, ?_⟩
  rw [← Option.not_isSome_iff_eq_none, books.ended,
    eq_int_iff whole stored.targetIs (by omega)]
  omega

theorem consistent_turn {next : Round α} {count : α} (before : round.Consistent rules first)
    (accepted : round.speak rules count = .ok next) : next.Consistent rules first := by
  obtain ⟨targetLeast, targetMost, -⟩ := stored.limits
  obtain ⟨total, whole, numbers⟩ := before.spoken
  have within := (le_int_iff whole stored.targetIs).mp before.totalMost
  obtain ⟨-, said, -, least, most, fits, rfl⟩ := (speak_iff stored whole within count).mp accepted
  have sumIs : Stands (Number.ofNat (total + said) : α) ((total + said : Nat) : Int) :=
    stands_ofNat (by omega)
  have saidIs : Stands (Number.ofNat said : α) said := stands_ofNat (by omega)
  -- The turn that is added is the last one, made by the player to move, and everything else the
  -- record says was said before it.
  constructor
  case totalLeast => exact (le_int_iff stands_zero sumIs).mpr (Int.natCast_nonneg _)
  case totalMost => exact (le_int_iff sumIs stored.targetIs).mpr (by omega)
  case spoken =>
    refine ⟨total + said, sumIs, ?_⟩
    have joined := wholeAfter_append (α := α) 0 total said
    rw [Nat.zero_add] at joined
    simp [Round.spoken, numbers, joined]
  case counts =>
    intro turn member
    rcases List.mem_append.mp member with earlier | last
    · exact before.counts turn earlier
    · rw [List.mem_singleton.mp last]
      exact ⟨said, saidIs, (le_int_iff stands_one saidIs).mpr (by omega),
        (le_int_iff saidIs stored.turnIs).mpr most, length_wholeAfter total said⟩
  case players =>
    simp [Round.spoken, before.players, before.toMove, List.range_succ]
  case toMove =>
    simp [Round.spoken, before.toMove, Player.inTurn_succ]
  case ended =>
    simp only [Round.spoken, Option.isSome_ite, eq_int_iff sumIs stored.targetIs (by omega)]
  case loser =>
    intro player lost
    have mover : round.toMove = player := by
      simp only [Round.spoken] at lost
      split at lost
      · exact Option.some.inj lost
      · cases lost
    constructor
    · simp [Round.spoken, mover]
    · rw [winner, lost, Option.map_some]

/-- Every turn of the history spoke at least one number and at most the longest turn. -/
theorem Consistent.length_history {total : Nat} (books : round.Consistent rules first)
    (whole : Stands round.total total) :
    round.history.length ≤ total ∧ (total : Int) ≤ round.history.length * longestTurn := by
  obtain ⟨greatest, rfl⟩ := Int.eq_ofNat_of_zero_le (zero_le_one.trans stored.limits.turnLeast)
  obtain ⟨sum, same, numbers⟩ := books.spoken
  obtain rfl : total = sum := Int.ofNat.inj (stands_unique whole same)
  have within : ∀ length ∈ round.history.map fun turn => turn.spoken.length,
      1 ≤ length ∧ length ≤ greatest := by
    intro length listed
    obtain ⟨turn, member, rfl⟩ := List.mem_map.mp listed
    obtain ⟨count, counted, least, most, spoken⟩ := books.counts turn member
    rw [le_int_iff stands_one counted] at least
    rw [le_int_iff counted stored.turnIs] at most
    rw [spoken]
    exact ⟨by exact_mod_cast least, by exact_mod_cast most⟩
  have spokenInAll : (round.history.map fun turn => turn.spoken.length).sum = total := by
    rw [← List.length_flatMap, numbers, length_wholeAfter]
  have atLeast := List.length_le_sum_of_one_le _ fun length listed => (within length listed).1
  have atMost := List.sum_le_card_nsmul _ greatest fun length listed => (within length listed).2
  rw [spokenInAll, List.length_map] at atLeast atMost
  rw [smul_eq_mul] at atMost
  exact ⟨atLeast, by exact_mod_cast atMost⟩

end Round

/-- Every play from the start of a round keeps its books, on every carrier: the numbers spoken run
from 1 to the total without gap or repetition, the players alternate, and the player who speaks the
target loses and ends the round for good. -/
theorem run_consistent {rules : Rules α} (valid : rules.WellFormed) (first : Player)
    (source : RandomSource α) (steps : List (Step α)) :
    let reached := Play.run rules ⟨.start first, source⟩ steps
    reached.round.Consistent rules first
      ∧ (reached.round.loser.isSome →
        (∀ step, (reached.step rules step).2.isSome)
          ∧ ∀ more, (reached.run rules more).round = reached.round) := by
  obtain ⟨target, longestTurn, stored⟩ := valid.exists_stored
  intro reached
  constructor
  · have turn (round : Round α) (count : α) (next : Round α)
        (before : round.Consistent rules first) (accepted : round.speak rules count = .ok next) :
        next.Consistent rules first :=
      Round.consistent_turn stored before accepted
    exact Play.run_keeps turn _ steps (Round.consistent_start stored first)
  · intro ended
    constructor
    · intro step
      obtain ⟨refusal, refused⟩ := Play.step_over rules ended step
      rw [refused]
      rfl
    · intro more
      rw [Play.run_over _ ended more]

end Books

/-- With one number a turn, on doubles, the second turn speaks the target 2, and the computer has
lost. -/
theorem run_consistent_one_each :
    let rules : Rules Float := ⟨2, 1⟩
    let reached := Play.run rules ⟨.start .human, .constant 0⟩ [.speak 1, .typed " +01 "]
    rules.WellFormed ∧ reached.round.Consistent rules .human
      ∧ reached.round.loser = some .computer ∧ (reached.step rules .computer).2.isSome := by
  intro rules reached
  have valid : rules.WellFormed := by constructor <;> decide +kernel
  have ended : reached.round.loser = some .computer := by decide +kernel
  have books := run_consistent valid .human (.constant 0) [.speak 1, .typed " +01 "]
  exact ⟨valid, books.1, ended, (books.2 (by rw [ended]; rfl)).1 .computer⟩

end RuleAdvisor.Counting
