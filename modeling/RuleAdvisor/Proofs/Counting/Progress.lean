import RuleAdvisor.Proofs.Counting.Drawing
import RuleAdvisor.Proofs.Counting.History
import RuleAdvisor.Proofs.Counting.Strategy

/-!
Progress of a round and the random numbers it takes. An open round can always go on, every turn
brings it nearer to the target, and what the computer chooses is never refused. A random number is
drawn exactly when the computer is to play from a safe total on its own turn, and only one outside
`[0, 1)` keeps it from speaking.
-/

namespace RuleAdvisor.Counting

open IntegerCarrier

section Counts

variable {α : Type} [Number α]

def Play.accepted (rules : Rules α) (play : Play α) (steps : List (Step α)) : Nat :=
  (play.trace rules steps).countP fun result => result.2.isNone

/-- Whether the computer is to play, in an open round, on its own turn and from a safe total. -/
def Step.drawsIn (rules : Rules α) (round : Round α) : Step α → Bool
  | .speak _ | .typed _ => false
  | .computer | .either _ =>
      round.loser.isNone && decide (round.toMove = .computer) && rules.isSafe round.total

def Play.drawing (rules : Rules α) : Play α → List (Step α) → Nat
  | _, [] => 0
  | play, step :: rest =>
      (step.drawsIn rules play.round).toNat + drawing rules (play.step rules step).1 rest

theorem Round.history_of_speak {rules : Rules α} {round next : Round α} {count : α}
    (spoke : round.speak rules count = .ok next) :
    next.history = round.history ++ [⟨round.toMove, count, spokenAfter round.total count⟩] := by
  obtain ⟨-, -, -, -, -, rfl⟩ := Round.speak_eq_ok_iff.mp spoke
  rfl

theorem Play.accepted_cons (rules : Rules α) (play : Play α) (step : Step α)
    (rest : List (Step α)) :
    play.accepted rules (step :: rest)
      = (play.step rules step).1.accepted rules rest
        + if (play.step rules step).2.isNone then 1 else 0 :=
  List.countP_cons

theorem Play.length_history_run (rules : Rules α) (play : Play α) (steps : List (Step α)) :
    (play.run rules steps).round.history.length
      = play.round.history.length + play.accepted rules steps := by
  induction steps generalizing play with
  | nil => rfl
  | cons step rest ih =>
      rw [run_cons, ih, accepted_cons]
      rcases step_cases rules play step with ⟨refused, same⟩ | ⟨accepted, count, spoke⟩
      · obtain ⟨refusal, refused⟩ := Option.isSome_iff_exists.mp refused
        simp [same, refused]
      · rw [Round.history_of_speak spoke, accepted]
        simp only [List.length_append, List.length_singleton, Option.isNone_none, if_true]
        omega

theorem Round.playComputer_eq {rules : Rules α} {round : Round α} (stillOpen : round.loser = none)
    (computer : round.toMove = .computer) (source : RandomSource α) :
    round.playComputer rules source
      = ((rules.choose round.total source).1.bind (round.speak rules),
          (rules.choose round.total source).2) := by
  unfold playComputer
  rw [stillOpen, computer]
  rcases rules.choose round.total source with ⟨refusal | count, after⟩ <;> rfl

theorem Play.source_step (rules : Rules α) (play : Play α) (step : Step α) :
    (play.step rules step).1.source = (play.attempt rules step).2 := by
  unfold Play.step
  split <;> simp [*]

end Counts

variable {α : Type} [Number α] [IntegerCarrier α] {rules : Rules α} {target longestTurn : Int}
  (stored : rules.Stores target longestTurn)

include stored

section Choice

variable {total : α} {played : Nat} (whole : Stands total played) (short : (played : Int) < target)

include whole short

theorem Rules.draws_choose (source : RandomSource α) :
    (rules.choose total source).2.draws = source.draws + (rules.isSafe total).toNat := by
  have safeIff := stored.isSafe_iff_dvd whole short
  by_cases safe : longestTurn + 1 ∣ target - 1 - (played : Int)
  · rw [stored.choose_of_safe whole short safe, safeIff.mpr safe]
    rfl
  · obtain ⟨said, chosen, -⟩ := stored.choose_of_unsafe whole short safe
    rw [chosen, Bool.eq_false_iff.mpr (mt safeIff.mp safe)]
    rfl

theorem Rules.choose_refused_iff (source : RandomSource α) (refusal : Refusal α) :
    (rules.choose total source).1 = .error refusal
      ↔ refusal = .random source.next.1 ∧ rules.isSafe total = true
        ∧ ¬ (0 ≤ source.next.1 ∧ source.next.1 < 1) := by
  rw [stored.isSafe_iff_dvd whole short]
  by_cases safe : longestTurn + 1 ∣ target - 1 - (played : Int)
  · rw [stored.choose_of_safe whole short safe, countFor_refused_iff]
    simp only [safe, true_and]
  · obtain ⟨said, chosen, -⟩ := stored.choose_of_unsafe whole short safe
    simp only [chosen, safe, reduceCtorEq, false_and, and_false]

end Choice

theorem Round.total_lt_of_speak {round next : Round α} {total : Nat} {count : α}
    (whole : Stands round.total total) (within : (total : Int) ≤ target)
    (spoke : round.speak rules count = .ok next) : round.total < next.total := by
  have targetMost := stored.limits.targetGreatest
  obtain ⟨-, said, -, least, -, fits, rfl⟩ := (speak_iff stored whole within count).mp spoke
  exact (lt_int_iff whole (stands_ofNat (by omega))).mpr (by omega)

/-- Turns that make up the target are at least the target over the longest one, rounded up. -/
theorem Rules.Stores.ceil_le_turns {turns : Nat} (enough : target ≤ turns * longestTurn) :
    Number.ceil (value rules.target / value rules.longestTurn) ≤ (Number.ofNat turns : Exact) := by
  have turnPositive : (0 : Rat) < longestTurn := by exact_mod_cast stored.limits.turnLeast
  rw [Exact.ofNat_eq, stored.targetIs, stored.turnIs, Exact.rat_div _ turnPositive.ne',
    Exact.ceil_rat, Exact.rat_le]
  have rounded : ⌈(target : Rat) / longestTurn⌉ ≤ (turns : Int) := by
    rw [Int.ceil_le, div_le_iff₀ turnPositive]
    exact_mod_cast enough
  exact_mod_cast rounded

section Turn

variable {round : Round α} {total : Nat} (whole : Stands round.total total)
  (short : (total : Int) < target) (stillOpen : round.loser = none)

include whole short stillOpen

theorem Round.speak_of_choose {source : RandomSource α} {count : α}
    (chosen : (rules.choose round.total source).1 = .ok count) :
    ∃ next, round.speak rules count = .ok next := by
  obtain ⟨said, rfl, least, most, fits, -⟩ := stored.allowed_of_choose whole short chosen
  exact ⟨_, speak_whole stored whole stillOpen least most fits⟩

theorem Round.playComputer_refused_iff (computer : round.toMove = .computer)
    (source : RandomSource α) (refusal : Refusal α) :
    (round.playComputer rules source).1 = .error refusal
      ↔ refusal = .random source.next.1 ∧ rules.isSafe round.total = true
        ∧ ¬ (0 ≤ source.next.1 ∧ source.next.1 < 1) := by
  rw [playComputer_eq stillOpen computer, ← Rules.choose_refused_iff stored whole short]
  cases chosen : (rules.choose round.total source).1 with
  | error other => simp [Except.bind]
  | ok count =>
      obtain ⟨next, spoke⟩ := speak_of_choose stored whole short stillOpen chosen
      simp [Except.bind, spoke]

end Turn

namespace Play

variable {play : Play α} {first : Player}

theorem draws_step (books : play.round.Consistent rules first) (step : Step α) :
    (play.step rules step).1.source.draws
      = play.source.draws + (step.drawsIn rules play.round).toNat := by
  -- In an open round the total is short of the target, so the choice can be followed.
  have computerTurn : (play.round.playComputer rules play.source).2.draws
      = play.source.draws + (Step.computer.drawsIn rules play.round).toNat := by
    cases lost : play.round.loser with
    | some player => simp [Round.playComputer, Step.drawsIn, lost]
    | none =>
        cases mover : play.round.toMove with
        | human => simp [Round.playComputer, Step.drawsIn, lost, mover]
        | computer =>
            obtain ⟨total, whole, -, openIff⟩ := books.exists_total stored
            rw [Round.playComputer_eq lost mover,
              Rules.draws_choose stored whole (openIff.mp lost)]
            simp [Step.drawsIn, lost, mover]
  rw [source_step]
  cases step with
  | speak count => rfl
  | typed text => rfl
  | computer => exact computerTurn
  | either count =>
      cases mover : play.round.toMove with
      | human => simp [attempt, Step.drawsIn, mover]
      | computer =>
          rw [attempt, if_pos mover]
          exact computerTurn

theorem draws_run (books : play.round.Consistent rules first) (steps : List (Step α)) :
    (play.run rules steps).source.draws = play.source.draws + play.drawing rules steps := by
  induction steps generalizing play with
  | nil => rfl
  | cons step rest ih =>
      have after := step_keeps (fun _ _ _ => Round.consistent_turn stored) play step books
      rw [run_cons, ih after, draws_step stored books, drawing, Nat.add_assoc]

/-- How far a play has come after some steps, and what the next one can do. The turns are counted
against the integers that the rules stand for. -/
structure Progress (rules : Rules α) (play : Play α) (steps : List (Step α)) (reached : Play α) :
    Prop where
  one : reached.round.loser = none → ∃ next, reached.round.speak rules 1 = .ok next
  growing : ∀ count next, reached.round.speak rules count = .ok next →
    reached.round.total < next.total
  acceptedMost : Number.ofNat (play.accepted rules steps) ≤ value rules.target
  acceptedLeast : reached.round.loser.isSome →
    Number.ceil (value rules.target / value rules.longestTurn)
      ≤ Number.ofNat (play.accepted rules steps)
  /-- On its own turn of an open round the computer is kept from speaking by one thing only. -/
  computer : reached.round.loser = none → reached.round.toMove = .computer →
    ∀ source refusal, (reached.round.playComputer rules source).1 = .error refusal ↔
      refusal = .random source.next.1 ∧ rules.isSafe reached.round.total = true
        ∧ ¬ (0 ≤ source.next.1 ∧ source.next.1 < 1)
  choice : reached.round.loser = none → ∀ source count,
    (rules.choose reached.round.total source).1 = .ok count →
      ∃ next, reached.round.speak rules count = .ok next
  draws : reached.source.draws = play.source.draws + play.drawing rules steps
  step : ∀ step, ((reached.step rules step).2.isSome
      ∧ (reached.step rules step).1.round = reached.round)
    ∨ ((reached.step rules step).2 = none
      ∧ reached.round.total < (reached.step rules step).1.round.total)

end Play

omit stored

/-- Every play from the start of a round can go on until the target is spoken, comes nearer to it
with every turn and reaches it in no more turns than it has numbers and no fewer than the longest
turns make. Of its computer's turns only those from safe totals draw a random number, and only a
number outside `[0, 1)` is refused, however a share of it is rounded; a step that is refused leaves
the round as it was. -/
theorem run_progress [NumberText α] (valid : rules.WellFormed) (first : Player)
    (source : RandomSource α) (steps : List (Step α)) :
    let play : Play α := ⟨.start first, source⟩
    play.Progress rules steps (play.run rules steps)
      ∧ ∀ value : α, (Refusal.random value).report.kind = .randomSource := by
  obtain ⟨target, longestTurn, stored⟩ := valid.exists_stored
  have turnLeast := stored.limits.turnLeast
  intro play
  have atStart : play.round.Consistent rules first := Round.consistent_start stored first
  have books := Play.run_keeps (fun _ _ _ => Round.consistent_turn stored) play steps atStart
  obtain ⟨total, whole, atMost, openIff⟩ := books.exists_total stored
  obtain ⟨turnsMost, turnsLeast⟩ := books.length_history stored whole
  have turns := Play.length_history_run rules play steps
  rw [show play.round.history = [] from rfl, List.length_nil, Nat.zero_add] at turns
  -- Each turn that was accepted is one of the history, which the total bounds on both sides.
  rw [turns] at turnsMost turnsLeast
  refine ⟨?_, fun _ => rfl⟩
  constructor
  case one =>
    intro stillOpen
    have short := openIff.mp stillOpen
    exact ⟨_, Round.speak_whole stored whole stillOpen le_rfl (by exact_mod_cast turnLeast)
      (by rw [Nat.cast_one]; omega)⟩
  case growing => exact fun _ _ => Round.total_lt_of_speak stored whole atMost
  case acceptedMost =>
    rw [Exact.ofNat_eq, stored.targetIs, Exact.rat_le]
    exact_mod_cast (Int.ofNat_le.mpr turnsMost).trans atMost
  case acceptedLeast =>
    intro ended
    have full : (total : Int) = target := by
      have notOpen : ¬ (total : Int) < target := by
        rw [← openIff, ← Option.not_isSome_iff_eq_none, not_not]
        exact ended
      omega
    rw [full] at turnsLeast
    exact stored.ceil_le_turns turnsLeast
  case computer =>
    intro stillOpen mover
    exact Round.playComputer_refused_iff stored whole (openIff.mp stillOpen) stillOpen mover
  case choice =>
    intro stillOpen source count chosen
    exact Round.speak_of_choose stored whole (openIff.mp stillOpen) stillOpen chosen
  case draws => exact Play.draws_run stored atStart steps
  case step =>
    intro step
    rcases Play.step_cases rules (play.run rules steps) step with refused | ⟨accepted, count, spoke⟩
    · exact .inl refused
    · exact .inr ⟨accepted, Round.total_lt_of_speak stored whole atMost spoke⟩

/-- On doubles, the computer is to start from the safe total 0 of the limits 21 and 4, with a source
that gives 5: one number is drawn and refused, and the turn is left to others. -/
theorem run_progress_refused :
    let rules : Rules Float := ⟨21, 4⟩
    let play : Play Float := ⟨.start .computer, .constant 5⟩
    let steps : List (Step Float) := [.computer, .speak 3, .typed "5"]
    rules.WellFormed ∧ play.Progress rules steps (play.run rules steps)
      ∧ play.accepted rules steps = 1 ∧ (play.run rules steps).source.draws = 1 := by
  intro rules play steps
  have valid : rules.WellFormed := by constructor <;> decide +kernel
  obtain ⟨progress, -⟩ := run_progress valid .computer (.constant 5) steps
  have drawing : play.drawing rules steps = 1 := by decide +kernel
  exact ⟨valid, progress, by decide +kernel, by rw [progress.draws, drawing]; rfl⟩

end RuleAdvisor.Counting
