import RuleAdvisor.Counting.Round
import RuleAdvisor.Proofs.Counting.Positions

/-!
What a turn and a step of a play can do. A turn succeeds only in an open round and with a whole
count within the limits, and then fixes the next round completely; a step is either such a turn or
refused. What every turn preserves is therefore preserved by every play.
-/

namespace RuleAdvisor.Counting

open IntegerCarrier

section Whole

variable {α : Type} [Number α]

/-- The whole numbers `start + 1, …, start + count`. -/
def wholeAfter (start count : Nat) : List α :=
  (List.range' (start + 1) count).map Number.ofNat

@[simp] theorem length_wholeAfter (start count : Nat) :
    (wholeAfter start count : List α).length = count := by
  simp [wholeAfter]

theorem wholeAfter_append (start first second : Nat) :
    wholeAfter start first ++ wholeAfter (start + first) second
      = (wholeAfter start (first + second) : List α) := by
  rw [wholeAfter, wholeAfter, wholeAfter, ← List.map_append, Nat.add_right_comm start first 1,
    List.range'_append_1]

variable [IntegerCarrier α]

theorem countUp_whole {last : α} {number fuel count : Nat}
    (lastIs : Stands last (number + count - 1 : Int)) (small : number + count ≤ 1001)
    (enough : count < fuel) :
    countUp last fuel (Number.ofNat number) = (List.range' number count).map Number.ofNat := by
  -- Each number spoken takes one off what is left and one off the fuel, which stays ahead of it.
  induction count generalizing number fuel with
  | zero =>
      obtain ⟨spare, rfl⟩ := Nat.exists_eq_add_of_lt enough
      have past : ¬ (Number.ofNat number : α) ≤ last := by
        rw [le_int_iff (stands_ofNat (by omega)) lastIs]
        omega
      rw [countUp, if_neg past]
      rfl
  | succ count ih =>
      obtain ⟨spare, rfl⟩ := Nat.exists_eq_add_of_lt enough
      have numberIs : Stands (Number.ofNat number : α) number := stands_ofNat (by omega)
      have reached : (Number.ofNat number : α) ≤ last := by
        rw [le_int_iff numberIs lastIs]
        omega
      have next : (Number.ofNat number + 1 : α) = Number.ofNat (number + 1) :=
        eq_ofNat_of_stands (by omega) (by omega)
          (value_add numberIs stands_one (small_of_le (by omega) (by omega)))
      have left : ((number + 1 : Nat) : Int) + count - 1 = number + (count + 1 : Nat) - 1 := by
        omega
      rw [countUp, if_pos reached, next, ih (by rwa [left]) (by omega) (by omega)]
      rfl

theorem spokenAfter_whole {start count : α} {total said : Nat} (startIs : Stands start total)
    (countIs : Stands count said) (positive : 1 ≤ said) (small : total + said ≤ 1000) :
    spokenAfter start count = wholeAfter total said := by
  have first := value_add startIs stands_one (small_of_le (by omega) (by omega))
  have last := value_add startIs countIs (small_of_le (by omega) (by omega))
  have width := value_sub last first (small_of_le (by omega) (by omega))
  have firstIs : start + 1 = Number.ofNat (total + 1) :=
    eq_ofNat_of_stands (by omega) (by omega) first
  have lastIs : Stands (start + count) (((total + 1 : Nat) : Int) + said - 1) := by
    rw [Stands, last]
    congr 2
    omega
  -- One less than the count is left from the first number to the last.
  have widthIs : value (start + count - (start + 1)) = Exact.rat ((said - 1 : Nat) : Rat) := by
    rw [width, ← Int.cast_natCast]
    congr 2
    omega
  have short : said - 1 < powerOfTwo 53 := lt_of_le_of_lt (by omega : _ ≤ 1000) (by decide)
  simp only [spokenAfter, steps_eq widthIs short, Option.getD_some]
  rw [firstIs]
  exact countUp_whole lastIs (by omega) (by omega)

end Whole

namespace Round

variable {α : Type} [Number α]

/-- A turn is accepted if it passes every test, and the next round is then determined. -/
theorem speak_eq_ok_iff {rules : Rules α} {round next : Round α} {count : α} :
    round.speak rules count = .ok next ↔
      round.loser = none ∧ Number.isInteger count = true ∧ ¬ count < 1
        ∧ ¬ rules.longestTurn < count ∧ ¬ rules.target - round.total < count
        ∧ next = {
            total := round.total + count
            toMove := round.toMove.other
            history := round.history ++ [⟨round.toMove, count, spokenAfter round.total count⟩]
            loser := if round.total + count == rules.target then some round.toMove else none } := by
  unfold speak
  split
  · next ended => simp [Option.ne_none_iff_isSome.mpr ended]
  · next stillOpen =>
      rw [Option.not_isSome_iff_eq_none] at stillOpen
      split
      · next illegal =>
          refine iff_of_false (fun accepted => nomatch accepted) ?_
          rintro ⟨-, whole, notBelow, notAbove, -⟩
          simp [whole, notBelow, notAbove] at illegal
      · next legal =>
          simp only [not_or, Bool.not_eq_true', Bool.not_eq_false] at legal
          split
          · next past => simp [past]
          · next fits =>
              rw [Except.ok.injEq, eq_comm]
              simp [stillOpen, legal, fits]

def spoken (target : Int) (round : Round α) (total said : Nat) : Round α where
  total := Number.ofNat (total + said)
  toMove := round.toMove.other
  history := round.history ++ [⟨round.toMove, Number.ofNat said, wholeAfter total said⟩]
  loser := if ((total + said : Nat) : Int) = target then some round.toMove else none

variable [IntegerCarrier α] {rules : Rules α} {target longestTurn : Int}
  (stored : rules.Stores target longestTurn) {round : Round α} {total : Nat}
  (whole : Stands round.total total)

include stored whole

theorem speak_whole (stillOpen : round.loser = none) {said : Nat} (least : 1 ≤ said)
    (most : said ≤ longestTurn) (fits : total + said ≤ target) :
    round.speak rules (Number.ofNat said) = .ok (round.spoken target total said) := by
  obtain ⟨-, targetMost, -, turnMost, -⟩ := stored.limits
  have count : Stands (Number.ofNat said : α) said := stands_ofNat (by omega)
  have left := value_sub stored.targetIs whole (small_of_le (by omega) (by omega))
  have sum := value_add whole count (small_of_le (by omega) (by omega))
  have sumIs : round.total + Number.ofNat said = Number.ofNat (total + said) :=
    eq_ofNat_of_stands (by omega) (by omega) sum
  have reached : (Number.ofNat (total + said) == rules.target) = true
      ↔ ((total + said : Nat) : Int) = target :=
    beq_iff (stands_ofNat (by omega)) stored.targetIs
  rw [speak_eq_ok_iff, lt_int_iff count stands_one, lt_int_iff stored.turnIs count,
    lt_int_iff left count, sumIs, spokenAfter_whole whole count least (by omega)]
  refine ⟨stillOpen, (isInteger_iff _).mpr ⟨_, count⟩, by omega, by omega, by omega, ?_⟩
  simp [spoken, reached]

theorem legal_of_speak (within : (total : Int) ≤ target) {next : Round α} {count : α}
    (accepted : round.speak rules count = .ok next) :
    round.loser = none ∧ ∃ said : Nat, count = Number.ofNat said ∧ 1 ≤ said
      ∧ said ≤ longestTurn ∧ total + said ≤ target := by
  obtain ⟨-, targetMost, -, turnMost, -⟩ := stored.limits
  have left := value_sub stored.targetIs whole (small_of_le (by omega) (by omega))
  obtain ⟨stillOpen, isWhole, least, most, fits, -⟩ := speak_eq_ok_iff.mp accepted
  obtain ⟨number, counted⟩ := (isInteger_iff count).mp isWhole
  rw [lt_int_iff counted stands_one, not_lt] at least
  rw [lt_int_iff stored.turnIs counted, not_lt] at most
  rw [lt_int_iff left counted, not_lt] at fits
  obtain ⟨said, rfl⟩ := Int.eq_ofNat_of_zero_le (by omega : 0 ≤ number)
  exact ⟨stillOpen, said, eq_ofNat_of_stands (by omega) (by omega) counted, by omega, most,
    by omega⟩

/-- A turn is accepted exactly if the round is open and the count is an integer within both
limits. -/
theorem speak_iff (within : (total : Int) ≤ target) {next : Round α} (count : α) :
    round.speak rules count = .ok next ↔
      round.loser = none ∧ ∃ said : Nat, count = Number.ofNat said ∧ 1 ≤ said
        ∧ said ≤ longestTurn ∧ total + said ≤ target ∧ next = round.spoken target total said := by
  constructor
  · intro accepted
    obtain ⟨stillOpen, said, rfl, least, most, fits⟩ :=
      legal_of_speak stored whole within accepted
    rw [speak_whole stored whole stillOpen least most fits] at accepted
    exact ⟨stillOpen, said, rfl, least, most, fits, (Except.ok.inj accepted).symm⟩
  · rintro ⟨stillOpen, said, rfl, least, most, fits, rfl⟩
    exact speak_whole stored whole stillOpen least most fits

end Round

variable {α : Type} [Number α]

theorem Round.speak_of_playComputer {rules : Rules α} {round next : Round α}
    {source : RandomSource α} (accepted : (round.playComputer rules source).1 = .ok next) :
    ∃ count, round.speak rules count = .ok next := by
  unfold Round.playComputer at accepted
  split at accepted
  · cases accepted
  · split at accepted
    · cases accepted
    · split at accepted
      · cases accepted
      · next count _ _ => exact ⟨count, accepted⟩

namespace Play

theorem speak_of_attempt {rules : Rules α} {play : Play α} {next : Round α} (step : Step α)
    (accepted : (play.attempt rules step).1 = .ok next) :
    ∃ count, play.round.speak rules count = .ok next := by
  cases step with
  | speak count => exact ⟨count, accepted⟩
  | typed text =>
      simp only [attempt, Round.speakTyped] at accepted
      split at accepted
      · cases accepted
      · next count _ => exact ⟨count, accepted⟩
  | computer => exact Round.speak_of_playComputer accepted
  | either count =>
      simp only [attempt] at accepted
      split at accepted
      · exact Round.speak_of_playComputer accepted
      · exact ⟨count, accepted⟩

/-- A step is refused and leaves the round as it was, or it is one turn of the player to move. -/
theorem step_cases (rules : Rules α) (play : Play α) (step : Step α) :
    ((play.step rules step).2.isSome ∧ (play.step rules step).1.round = play.round)
      ∨ (play.step rules step).2 = none
        ∧ ∃ count, play.round.speak rules count = .ok (play.step rules step).1.round := by
  unfold Play.step
  split
  · next next source attempted =>
      exact .inr ⟨rfl, speak_of_attempt step (by rw [attempted])⟩
  · exact .inl ⟨rfl, rfl⟩

theorem step_keeps {rules : Rules α} {holds : Round α → Prop}
    (turn : ∀ round count next, holds round → round.speak rules count = .ok next → holds next)
    (play : Play α) (step : Step α) (before : holds play.round) :
    holds (play.step rules step).1.round := by
  rcases step_cases rules play step with ⟨-, same⟩ | ⟨-, count, spoken⟩
  · rw [same]
    exact before
  · exact turn play.round count _ before spoken

theorem run_cons (rules : Rules α) (play : Play α) (step : Step α) (rest : List (Step α)) :
    play.run rules (step :: rest) = (play.step rules step).1.run rules rest := rfl

theorem run_keeps {rules : Rules α} {holds : Round α → Prop}
    (turn : ∀ round count next, holds round → round.speak rules count = .ok next → holds next)
    (play : Play α) (steps : List (Step α)) (before : holds play.round) :
    holds (play.run rules steps).round := by
  induction steps generalizing play with
  | nil => exact before
  | cons step rest ih =>
      rw [run_cons]
      exact ih _ (step_keeps turn play step before)

theorem attempt_over (rules : Rules α) {play : Play α} (ended : play.round.loser.isSome)
    (step : Step α) : ∃ refusal, play.attempt rules step = (.error refusal, play.source) := by
  have noTurn (count : α) : play.round.speak rules count = .error .roundOver := by
    simp [Round.speak, ended]
  have noComputer : play.round.playComputer rules play.source
      = (.error .roundOver, play.source) := by
    simp [Round.playComputer, ended]
  cases step with
  | speak count => exact ⟨.roundOver, by simp [attempt, noTurn]⟩
  | typed text =>
      -- A text that is no count is refused before the round is looked at.
      cases read : readCount rules text with
      | error refusal => exact ⟨refusal, by simp [attempt, Round.speakTyped, read]⟩
      | ok count => exact ⟨.roundOver, by simp [attempt, Round.speakTyped, read, noTurn]⟩
  | computer => exact ⟨.roundOver, by simp [attempt, noComputer]⟩
  | either count => exact ⟨.roundOver, by simp [attempt, noComputer, noTurn]⟩

theorem step_over (rules : Rules α) {play : Play α} (ended : play.round.loser.isSome)
    (step : Step α) : ∃ refusal, play.step rules step = (play, some refusal) := by
  obtain ⟨refusal, attempted⟩ := attempt_over rules ended step
  exact ⟨refusal, by simp [Play.step, attempted]⟩

theorem run_over (rules : Rules α) {play : Play α} (ended : play.round.loser.isSome)
    (steps : List (Step α)) : play.run rules steps = play := by
  induction steps with
  | nil => rfl
  | cons step rest ih =>
      obtain ⟨refusal, stays⟩ := step_over rules ended step
      rw [run_cons, stays, ih]

end Play
end RuleAdvisor.Counting
