import RuleAdvisor.Counting.Winning
import RuleAdvisor.Proofs.Counting.Drawing
import RuleAdvisor.Proofs.Counting.Turns

/-!
Positions won and lost, told by arithmetic. A round in which the game still goes on is lost for the
player to move exactly if its total is safe, and won from every other total by one count only, the
one that the choice makes.
-/

namespace RuleAdvisor.Counting.Round

open IntegerCarrier

/-- An open round whose total is an integer from 0 to the last total. -/
structure Playable {α : Type} [Number α] (rules : Rules α) (round : Round α) : Prop where
  stillOpen : round.loser = none
  whole : Number.isInteger round.total = true
  least : 0 ≤ round.total
  last : round.total ≤ rules.lastTotal

variable {α : Type} [Number α]

theorem spoken_open_iff (target : Int) (round : Round α) (total said : Nat) :
    (round.spoken target total said).loser = none ↔ ((total + said : Nat) : Int) ≠ target := by
  by_cases full : ((total + said : Nat) : Int) = target <;> simp [spoken, full]

variable [IntegerCarrier α] {rules : Rules α} {target longestTurn : Int}

section Open

variable (stored : rules.Stores target longestTurn) {round : Round α}
  (stillOpen : round.loser = none) {total : Nat} (whole : Stands round.total total)
  (short : (total : Int) < target)

include stored stillOpen whole short

theorem follows_iff {next : Round α} :
    Follows rules round next ↔
      ∃ said : Nat, 1 ≤ said ∧ said ≤ longestTurn ∧ ((total + said : Nat) : Int) < target
        ∧ next = round.spoken target total said := by
  constructor
  · rintro ⟨nextOpen, count, spoke⟩
    obtain ⟨-, said, -, least, most, fits, rfl⟩ := (speak_iff stored whole short.le count).mp spoke
    have short := (spoken_open_iff target round total said).mp nextOpen
    exact ⟨said, least, most, by omega, rfl⟩
  · rintro ⟨said, least, most, short, rfl⟩
    exact ⟨(spoken_open_iff target round total said).mpr short.ne, _,
      speak_whole stored whole stillOpen least most (by omega)⟩

/-- From a safe total every turn leaves one that is not, and from every other total some turn
reaches a safe one. -/
theorem won_or_lost :
    (¬ longestTurn + 1 ∣ target - 1 - (total : Int) → Won rules round)
      ∧ (longestTurn + 1 ∣ target - 1 - (total : Int) → Lost rules round) := by
  have targetMost := stored.limits.targetGreatest
  -- The induction is on what is left to speak, which every turn makes less.
  induction left : (target - total).toNat using Nat.strong_induction_on
    generalizing round total with
  | _ left ih =>
    have later {said : Nat} (least : 1 ≤ said)
        (stillShort : ((total + said : Nat) : Int) < target) :=
      ih _ (by omega) ((spoken_open_iff target round total said).mpr stillShort.ne)
        (stands_ofNat (by omega)) stillShort rfl
    constructor
    · intro notSafe
      obtain ⟨said, -, least, most, stillShort, safe⟩ :=
        exists_winning_count stored.limits.turnLeast short notSafe
      exact .leave
        ((follows_iff stored stillOpen whole short).mpr ⟨said, least, most, stillShort, rfl⟩)
        ((later least stillShort).2 safe)
    · intro safe
      apply Lost.forced
      intro next follows
      obtain ⟨said, least, most, stillShort, rfl⟩ :=
        (follows_iff stored stillOpen whole short).mp follows
      exact (later least stillShort).1 (not_reaches_of_safe least most safe)

theorem won_iff : Won rules round ↔ ¬ longestTurn + 1 ∣ target - 1 - (total : Int) := by
  obtain ⟨won, lost⟩ := won_or_lost stored stillOpen whole short
  exact ⟨fun isWon safe => isWon.not_lost (lost safe), won⟩

theorem wins_iff (count : α) (next : Round α) :
    (round.speak rules count = .ok next ∧ next.total < rules.target ∧ ¬ Won rules next)
      ↔ ∃ said : Nat, count = Number.ofNat said ∧ 1 ≤ said ∧ said ≤ longestTurn
        ∧ ((total + said : Nat) : Int) < target
        ∧ longestTurn + 1 ∣ target - 1 - ((total + said : Nat) : Int)
        ∧ next = round.spoken target total said := by
  have targetMost := stored.limits.targetGreatest
  -- A turn that stays short leads to an open round, won or lost by its total.
  have lostIff {said : Nat} (stillShort : ((total + said : Nat) : Int) < target) :
      ¬ Won rules (round.spoken target total said)
        ↔ longestTurn + 1 ∣ target - 1 - ((total + said : Nat) : Int) := by
    rw [won_iff stored ((spoken_open_iff target round total said).mpr stillShort.ne)
      (stands_ofNat (by omega)) stillShort, not_not]
  have shortIff {said : Nat} (fits : (total : Int) + said ≤ target) :
      (round.spoken target total said).total < rules.target
        ↔ ((total + said : Nat) : Int) < target :=
    lt_int_iff (stands_ofNat (by omega)) stored.targetIs
  constructor
  · rintro ⟨spoke, below, notWon⟩
    obtain ⟨-, said, rfl, least, most, fits, rfl⟩ :=
      (speak_iff stored whole short.le count).mp spoke
    have stillShort := (shortIff fits).mp below
    exact ⟨said, rfl, least, most, stillShort, (lostIff stillShort).mp notWon, rfl⟩
  · rintro ⟨said, rfl, least, most, stillShort, safe, rfl⟩
    exact ⟨speak_whole stored whole stillOpen least most (by omega),
      (shortIff (by omega)).mpr stillShort, (lostIff stillShort).mpr safe⟩

end Open

/-- The player to move wins exactly from the totals that are not safe. This is winning in the sense
that some count can be spoken which stays short of the target and does not let the other player win;
from a total that is not safe there is one such count, and it is the one chosen, for which no random
number is drawn. -/
theorem won_iff_unsafe (valid : rules.WellFormed) {round : Round α}
    (playable : round.Playable rules) :
    (Won rules round ↔ rules.isSafe round.total = false)
      ∧ (Won rules round ↔ ∃ count next, round.speak rules count = .ok next
        ∧ next.total < rules.target ∧ ¬ Won rules next)
      ∧ (Won rules round → ∀ source, ∃ count next,
        rules.choose round.total source = (.ok count, source)
        ∧ (round.speak rules count = .ok next ∧ next.total < rules.target ∧ ¬ Won rules next)
        ∧ ∀ other after, round.speak rules other = .ok after → after.total < rules.target →
          ¬ Won rules after → other = count) := by
  obtain ⟨target, longestTurn, stored⟩ := valid.exists_stored
  obtain ⟨-, targetMost, turnLeast, turnMost, -⟩ := stored.limits
  have stillOpen := playable.stillOpen
  obtain ⟨total, whole, short⟩ := (stored.isPlayable_iff round.total).mp
    ⟨playable.whole, playable.least, playable.last⟩
  have unsafeIff : rules.isSafe round.total = false
      ↔ ¬ longestTurn + 1 ∣ target - 1 - (total : Int) := by
    rw [← stored.isSafe_iff_dvd whole short, Bool.not_eq_true]
  have wins := wins_iff stored stillOpen whole short
  rw [won_iff stored stillOpen whole short, unsafeIff]
  refine ⟨Iff.rfl, ?_, ?_⟩
  · constructor
    · intro notSafe
      obtain ⟨said, -, least, most, stillShort, safe⟩ :=
        exists_winning_count turnLeast short notSafe
      exact ⟨_, _, (wins _ _).mpr ⟨said, rfl, least, most, stillShort, safe, rfl⟩⟩
    · rintro ⟨count, next, winning⟩ safe
      obtain ⟨said, -, least, most, -, again, -⟩ := (wins count next).mp winning
      exact not_reaches_of_safe least most safe again
  · intro notSafe source
    obtain ⟨said, chosen, least, most, stillShort, safe⟩ :=
      stored.choose_of_unsafe whole short notSafe
    refine ⟨Number.ofNat said, _, chosen source,
      (wins _ _).mpr ⟨said, rfl, least, most, stillShort, safe, rfl⟩, ?_⟩
    intro other after spoke below notWon
    obtain ⟨count, rfl, -, within, -, again, -⟩ := (wins other after).mp ⟨spoke, below, notWon⟩
    rw [eq_of_reaches most within safe again]

/-- At 17 of 21, with three numbers a turn, on doubles, 3 is the count that wins. -/
theorem won_iff_unsafe_seventeen :
    let rules : Rules Float := ⟨21, 3⟩
    let round : Round Float := ⟨17, .human, [], none⟩
    rules.WellFormed ∧ round.Playable rules ∧ Won rules round
      ∧ rules.choose 17 (.constant 5) = (.ok 3, .constant 5)
      ∧ ∀ count next, round.speak rules count = .ok next → next.total < rules.target →
        ¬ Won rules next → count = 3 := by
  intro rules round
  have valid : rules.WellFormed := by constructor <;> decide +kernel
  have playable : round.Playable rules := by constructor <;> decide +kernel
  obtain ⟨unsafeIff, -, choice⟩ := won_iff_unsafe valid playable
  have won : Won rules round := unsafeIff.mpr (by decide +kernel)
  obtain ⟨count, _, chosen, -, only⟩ := choice won (.constant 5)
  have three : (rules.choose 17 (.constant 5)).1.toOption = some 3 := by decide +kernel
  rw [show rules.choose 17 (.constant 5) = (.ok count, .constant 5) from chosen] at three ⊢
  obtain rfl : count = 3 := Option.some.inj three
  exact ⟨valid, playable, won, rfl, only⟩

end RuleAdvisor.Counting.Round
