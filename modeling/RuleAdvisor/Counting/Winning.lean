import RuleAdvisor.Counting.Round

/-!
Positions won and lost with best play, told from the rounds that the next turn can lead to and from
nothing else. A turn that speaks the target loses, so only turns short of it count.

No round is both won and lost.
-/

namespace RuleAdvisor.Counting.Round

variable {α : Type} [Number α]

/-- The round after some turn of the player to move that leaves it open. -/
def Follows (rules : Rules α) (round next : Round α) : Prop :=
  next.loser = none ∧ ∃ count, round.speak rules count = .ok next

mutual

/-- Some turn of the player to move leaves a lost round to the other. -/
inductive Won (rules : Rules α) : Round α → Prop where
  | leave {round next : Round α} (follows : Follows rules round next) (lost : Lost rules next) :
      Won rules round

/-- Every turn of the player to move, if any is left, gives a won round to the other. -/
inductive Lost (rules : Rules α) : Round α → Prop where
  | forced {round : Round α} (won : ∀ next, Follows rules round next → Won rules next) :
      Lost rules round

end

theorem Won.not_lost {rules : Rules α} {round : Round α} (won : Won rules round) :
    ¬ Lost rules round := by
  refine @Won.rec α _ rules (fun round _ => ¬ Lost rules round)
    (fun round _ => ¬ Won rules round) ?_ ?_ _ won
  · intro round next follows _ nextNotWon lost
    cases lost with
    | forced nextWon => exact nextNotWon (nextWon next follows)
  · intro round _ nextNotLost won
    cases won with
    | leave follows lost => exact nextNotLost _ follows lost

end RuleAdvisor.Counting.Round
