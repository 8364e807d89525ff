import RuleAdvisor.Proofs.Counting.Drawing
import RuleAdvisor.Proofs.Counting.Turns

/-!
The computer's winning strategy. Once the human has to leave a safe total, or the computer can
reach one, this stays so turn after turn: the computer always finds its count without asking the
random source, and only the human is left to speak the target.
-/

namespace RuleAdvisor.Counting

open IntegerCarrier

/-- An open round in which the human has to leave a safe total or the computer may reach one. -/
structure Round.ComputerAhead {α : Type} [Number α] (rules : Rules α) (round : Round α) : Prop where
  stillOpen : round.loser = none
  whole : Number.isInteger round.total = true
  least : 0 ≤ round.total
  last : round.total ≤ rules.lastTotal
  turn : round.toMove = .human ∧ rules.isSafe round.total = true
    ∨ round.toMove = .computer ∧ rules.isSafe round.total = false

/-- Nobody speaks for the computer: while the round is open, the human attempts a count only when
it is the human's turn. The computer may be asked to play at any time. -/
def Step.LeavesComputer {α : Type} (round : Round α) : Step α → Prop
  | .speak _ | .typed _ => round.loser = none → round.toMove = .human
  | .computer | .either _ => True

def Play.LeavesComputer {α : Type} [Number α] (rules : Rules α) : Play α → List (Step α) → Prop
  | _, [] => True
  | play, step :: rest =>
      step.LeavesComputer play.round ∧ Play.LeavesComputer rules (play.step rules step).1 rest

theorem Play.source_of_human {α : Type} [Number α] {rules : Rules α} {play : Play α}
    (human : play.round.toMove = .human) (step : Step α) :
    (play.step rules step).1.source = play.source := by
  have refused : (play.round.playComputer rules play.source).2 = play.source := by
    unfold Round.playComputer
    split
    · rfl
    · rw [if_pos (by rw [human]; simp)]
  have unasked : (play.attempt rules step).2 = play.source := by
    cases step with
    | speak count => rfl
    | typed text => rfl
    | computer => exact refused
    | either count => simp [attempt, human]
  unfold Play.step
  split
  · next attempted => rw [attempted] at unasked; exact unasked
  · next attempted => rw [attempted] at unasked; exact unasked

variable {α : Type} [Number α] [IntegerCarrier α] {rules : Rules α} {target longestTurn : Int}
  (stored : rules.Stores target longestTurn)

include stored

namespace Round

theorem ComputerAhead.exists_total {round : Round α} (ahead : round.ComputerAhead rules) :
    ∃ total : Nat, Stands round.total total ∧ (total : Int) < target :=
  (stored.isPlayable_iff round.total).mp ⟨ahead.whole, ahead.least, ahead.last⟩

/-- Being ahead in whole numbers: the rest of the cycle is nothing on the human's turn and
something on the computer's. -/
theorem computerAhead_iff {round : Round α} {total : Nat} (whole : Stands round.total total)
    (short : (total : Int) < target) :
    round.ComputerAhead rules ↔
      round.loser = none
        ∧ (round.toMove = .human ↔ longestTurn + 1 ∣ target - 1 - (total : Int)) := by
  have safe : rules.isSafe round.total = true ↔ longestTurn + 1 ∣ target - 1 - (total : Int) :=
    stored.isSafe_iff_dvd whole short
  have exposed := Bool.eq_false_iff.trans (not_congr safe)
  -- The round is playable either way, so only the turn has to be told.
  have playable := (stored.isPlayable_iff round.total).mpr ⟨total, whole, short⟩
  constructor
  · rintro ⟨stillOpen, -, -, -, turn⟩
    refine ⟨stillOpen, ?_⟩
    rcases turn with ⟨human, isSafe⟩ | ⟨computer, notSafe⟩
    · exact iff_of_true human (safe.mp isSafe)
    · exact iff_of_false (by rw [computer]; simp) (exposed.mp notSafe)
  · rintro ⟨stillOpen, turn⟩
    refine ⟨stillOpen, playable.whole, playable.least, playable.last, ?_⟩
    cases mover : round.toMove with
    | human => exact .inl ⟨rfl, safe.mpr (turn.mp mover)⟩
    | computer =>
        rw [mover] at turn
        have notSafe : ¬ longestTurn + 1 ∣ target - 1 - (total : Int) := by
          intro divides
          cases turn.mpr divides
        exact .inr ⟨rfl, exposed.mpr notSafe⟩

theorem ComputerAhead.human_turn {round next : Round α} {count : α}
    (ahead : round.ComputerAhead rules) (human : round.toMove = .human)
    (accepted : round.speak rules count = .ok next) :
    next.ComputerAhead rules ∨ next.loser = some .human := by
  have targetMost := stored.limits.targetGreatest
  obtain ⟨total, whole, short⟩ := ahead.exists_total stored
  obtain ⟨stillOpen, turn⟩ := (computerAhead_iff stored whole short).mp ahead
  obtain ⟨-, said, -, least, most, fits, rfl⟩ := (speak_iff stored whole short.le count).mp accepted
  have safe := turn.mp human
  by_cases full : ((total + said : Nat) : Int) = target
  · exact .inr (by simp only [spoken, full, if_true, human])
  · have stillShort : ((total + said : Nat) : Int) < target := by omega
    have computer : (round.spoken target total said).toMove = .computer := by
      rw [spoken, human]
      rfl
    have notSafe := not_reaches_of_safe least most safe
    left
    apply (computerAhead_iff stored (stands_ofNat (by omega)) stillShort).mpr
    constructor
    · simp only [spoken, full, if_false]
    · rw [computer]
      exact iff_of_false (by simp) notSafe

theorem ComputerAhead.computer_turn {round : Round α} (ahead : round.ComputerAhead rules)
    (computer : round.toMove = .computer) (source : RandomSource α) :
    ∃ next, round.playComputer rules source = (.ok next, source) ∧ next.ComputerAhead rules := by
  obtain ⟨-, targetMost, turnLeast, turnMost, -⟩ := stored.limits
  obtain ⟨total, whole, short⟩ := ahead.exists_total stored
  obtain ⟨stillOpen, turn⟩ := (computerAhead_iff stored whole short).mp ahead
  have notSafe : ¬ longestTurn + 1 ∣ target - 1 - (total : Int) := by
    rw [← turn, computer]
    simp
  -- The source is left out here: the count is found before it would be asked.
  obtain ⟨said, chosen, least, most, stillShort, safe⟩ :=
    stored.choose_of_unsafe whole short notSafe
  have spoke := speak_whole stored whole stillOpen least most (by omega)
  refine ⟨round.spoken target total said, ?_, ?_⟩
  · simp only [playComputer, stillOpen, computer, chosen, spoke, Option.isSome_none,
      Bool.false_eq_true, ne_eq, not_true_eq_false, if_false]
  · have human : (round.spoken target total said).toMove = .human := by
      rw [spoken, computer]
      rfl
    apply (computerAhead_iff stored (stands_ofNat (by omega)) stillShort).mpr
    constructor
    · simp only [spoken, stillShort.ne, if_false]
    · exact iff_of_true human safe

end Round

namespace Play

/-- One step keeps the computer ahead, or lets the human speak the target. -/
theorem step_ahead {play : Play α} {step : Step α} (ahead : play.round.ComputerAhead rules)
    (leaves : step.LeavesComputer play.round) :
    let next := (play.step rules step).1
    next.source = play.source
      ∧ (next.round.ComputerAhead rules ∨ next.round.loser = some .human) := by
  intro next
  cases mover : play.round.toMove with
  | human =>
      refine ⟨source_of_human mover step, ?_⟩
      rcases step_cases rules play step with ⟨-, same⟩ | ⟨-, count, spoke⟩
      · rw [show next.round = play.round from same]
        exact .inl ahead
      · exact ahead.human_turn stored mover spoke
  | computer =>
      obtain ⟨round, played, stillAhead⟩ := ahead.computer_turn stored mover play.source
      have stepped : play.step rules step = (⟨round, play.source⟩, none) := by
        cases step with
        | speak count => exact absurd (leaves ahead.stillOpen) (by rw [mover]; simp)
        | typed text => exact absurd (leaves ahead.stillOpen) (by rw [mover]; simp)
        | computer => simp [Play.step, attempt, played]
        | either count => simp [Play.step, attempt, mover, played]
      rw [show next = ⟨round, play.source⟩ from congrArg Prod.fst stepped]
      exact ⟨rfl, .inl stillAhead⟩

theorem run_ahead (play : Play α) (steps : List (Step α))
    (state : play.round.ComputerAhead rules ∨ play.round.loser = some .human)
    (leaves : play.LeavesComputer rules steps) :
    let reached := play.run rules steps
    reached.source = play.source
      ∧ (reached.round.ComputerAhead rules ∨ reached.round.loser = some .human) := by
  induction steps generalizing play with
  | nil => exact ⟨rfl, state⟩
  | cons step rest ih =>
      obtain ⟨first, later⟩ := leaves
      rcases state with ahead | lost
      · obtain ⟨unasked, after⟩ := step_ahead stored ahead first
        obtain ⟨stillUnasked, atEnd⟩ := ih _ after later
        exact ⟨stillUnasked.trans unasked, atEnd⟩
      · have ended : play.round.loser.isSome := by rw [lost]; rfl
        intro reached
        rw [show reached = play from run_over _ ended (step :: rest)]
        exact ⟨rfl, .inr lost⟩

end Play

omit stored

/-- From a round in which the computer is ahead it cannot lose, whatever counts the human attempts
and whatever the random source would give: the source is never asked, no computer's turn fails,
and a round that ends is won by the computer. So it is on every carrier. -/
theorem computer_never_loses (valid : rules.WellFormed) (play : Play α)
    (ahead : play.round.ComputerAhead rules) (steps : List (Step α))
    (leaves : play.LeavesComputer rules steps) :
    let reached := play.run rules steps
    reached.round.loser ≠ some .computer
      ∧ reached.source = play.source
      ∧ (reached.round.loser = none → reached.round.toMove = .computer → ∀ source,
        ∃ next, reached.round.playComputer rules source = (.ok next, source))
      ∧ (reached.round.loser.isSome → reached.round.winner = some .computer) := by
  obtain ⟨target, longestTurn, stored⟩ := valid.exists_stored
  intro reached
  obtain ⟨unasked, state⟩ := Play.run_ahead stored play steps (.inl ahead) leaves
  -- At the end the computer is still ahead in an open round, or the human has lost.
  refine ⟨?_, unasked, ?_, ?_⟩
  · rcases state with stillAhead | lost
    · rw [stillAhead.stillOpen]
      simp
    · rw [lost]
      simp
  · intro stillOpen computer source
    rcases state with stillAhead | lost
    · obtain ⟨next, played, -⟩ := stillAhead.computer_turn stored computer source
      exact ⟨next, played⟩
    · rw [lost] at stillOpen
      cases stillOpen
  · intro ended
    rcases state with stillAhead | lost
    · rw [stillAhead.stillOpen] at ended
      cases ended
    · rw [Round.winner, lost]
      rfl

/-- With one number a turn up to 2, on doubles, the computer moves first and wins, though its source
gives nothing usable. -/
theorem computer_never_loses_one_each :
    let rules : Rules Float := ⟨2, 1⟩
    let play : Play Float := ⟨.start .computer, .constant 5⟩
    let steps : List (Step Float) := [.computer, .speak 3, .speak 1]
    rules.WellFormed ∧ play.round.ComputerAhead rules ∧ play.LeavesComputer rules steps
      ∧ (play.run rules steps).round.loser = some .human
      ∧ (play.run rules steps).round.winner = some .computer := by
  intro rules play steps
  have valid : rules.WellFormed := by constructor <;> decide +kernel
  have ahead : play.round.ComputerAhead rules := by constructor <;> decide +kernel
  have human : (play.step rules .computer).1.round.toMove = .human := by decide +kernel
  have stillHuman : ((play.step rules .computer).1.step rules (.speak 3)).1.round.toMove
      = .human := by decide +kernel
  have leaves : play.LeavesComputer rules steps :=
    ⟨trivial, fun _ => human, fun _ => stillHuman, trivial⟩
  have lost : (play.run rules steps).round.loser = some .human := by decide +kernel
  obtain ⟨-, -, -, won⟩ := computer_never_loses valid play ahead steps leaves
  exact ⟨valid, ahead, leaves, lost, won (by rw [lost]; rfl)⟩

end RuleAdvisor.Counting
