import RuleAdvisor.Counting.Round
import RuleAdvisor.Proofs.Counting.Positions
import RuleAdvisor.Proofs.Decimal.Digits

/-!
Counts as they are typed, on doubles. Exactly the numerals of the counts that the rules allow are
read, whatever the length of a numeral, and each other text is refused for what is wrong with it. A
count that is read can be spoken in every open round in which it does not pass the target.
-/

namespace RuleAdvisor.Counting

open Exact Decimal
open NumberText (plain)
open Double (exact exact_one exact_ofInt lt_iff_exact compare_ofInt isInteger_eq_exact)

/-- The counts from 1 to the longest turn. -/
def Rules.Allows (rules : Rules Float) (number : Int) : Prop :=
  1 ≤ number ∧ rat number ≤ exact rules.longestTurn

def RefusesTyped (rules : Rules Float) (typed message : String) : Prop :=
  ∃ refusal, readCount rules typed = .error refusal
    ∧ refusal.report = .ofMessage .invalidMove message

theorem Round.pastTarget_of_within {α : Type} [Number α] {rules : Rules α} {round : Round α}
    (stillOpen : round.loser = none) {count : α} (whole : Number.isInteger count = true)
    (within : ¬ (count < 1 ∨ rules.longestTurn < count)) {refusal : Refusal α}
    (refused : round.speak rules count = .error refusal) :
    refusal = .pastTarget count rules.target round.total
      ∧ rules.target - round.total < count := by
  simp only [Round.speak, stillOpen, whole, within, Option.isSome_none, Bool.not_true,
    Bool.false_eq_true, false_or, if_false] at refused
  split at refused
  · next past => exact ⟨(Except.error.inj refused).symm, past⟩
  · cases refused

theorem typedCount_report_ne (longestTurn other : Float) :
    (Refusal.typedCount longestTurn).report ≠ (Refusal.notWhole other).report := by
  intro same
  have begins := congrArg (fun report => report.message.toList.head?) same
  simp only [Refusal.report, FailureReport.ofMessage, String.toList_append, List.head?_append]
    at begins
  have first : some 'O' = some 'E' := begins
  exact absurd first (by decide)

section Stored

variable {rules : Rules Float} {target longestTurn : Int} (stored : rules.Stores target longestTurn)

include stored

theorem Rules.allows_iff (number : Int) :
    rules.Allows number ↔ ¬ ((Number.ofInt number : Float) < 1
      ∨ rules.longestTurn < Number.ofInt number) := by
  have limits := stored.limits
  have turnIs : exact rules.longestTurn = rat longestTurn := stored.turnIs
  have small : |longestTurn| ≤ 2 ^ 51 := by
    rw [abs_le]
    constructor <;> linarith [limits.turnLeast, limits.turnGreatest]
  rw [Rules.Allows, lt_iff_exact, lt_iff_exact, show exact 1 = _ from exact_one, turnIs,
    (compare_ofInt (by decide) _).1, (compare_ofInt small _).2, rat_le, Int.cast_le]
  omega

/-- Whatever is typed is a numeral of one number, which is allowed or not, or no numeral. -/
theorem readCount_cases (typed : String) :
    (∃ number, Types typed.toList number ∧ rules.Allows number
        ∧ readCount rules typed = .ok (Number.ofInt number))
      ∨ (∃ number, Types typed.toList number ∧ ¬ rules.Allows number
        ∧ readCount rules typed = .error (.typedCount rules.longestTurn))
      ∨ (∀ number, ¬ Types typed.toList number)
        ∧ readCount rules typed = .error (.notWhole rules.longestTurn) := by
  unfold readCount
  cases read : integer? (Text.trimChars typed.toList) with
  | none =>
      refine .inr (.inr ⟨?_, rfl⟩)
      intro number types
      rw [types_iff, ← integer?_eq_some_iff, read] at types
      cases types
  | some number =>
      have types := (types_iff _ _).mpr ((integer?_eq_some_iff _ _).mp read)
      by_cases allowed : rules.Allows number
      · exact .inl ⟨number, types, allowed, if_neg ((Rules.allows_iff stored number).mp allowed)⟩
      · refine .inr (.inl ⟨number, types, allowed, if_pos ?_⟩)
        rwa [Rules.allows_iff stored, not_not] at allowed

theorem readCount_ok_iff (typed : String) (count : Float) :
    readCount rules typed = .ok count ↔ ∃ number, Types typed.toList number
      ∧ rules.Allows number ∧ count = Number.ofInt number := by
  constructor
  · intro read
    rcases readCount_cases stored typed with
      ⟨number, types, allowed, result⟩ | ⟨_, _, _, result⟩ | ⟨_, result⟩
    · rw [result] at read
      exact ⟨number, types, allowed, (Except.ok.inj read).symm⟩
    all_goals
      rw [result] at read
      cases read
  · rintro ⟨number, types, allowed, rfl⟩
    rcases readCount_cases stored typed with
      ⟨other, also, _, result⟩ | ⟨other, also, refused, _⟩ | ⟨none, _⟩
    · rw [result, types.unique also]
    · exact absurd (types.unique also ▸ allowed) refused
    · exact absurd types (none number)

theorem Rules.exact_of_allows {number : Int} (allowed : rules.Allows number) :
    exact (Number.ofInt number) = rat number := by
  obtain ⟨least, most⟩ := allowed
  have turnIs : exact rules.longestTurn = rat longestTurn := stored.turnIs
  rw [turnIs, rat_le, Int.cast_le] at most
  apply exact_ofInt
  rw [abs_le]
  constructor <;> linarith [stored.limits.turnGreatest]

theorem Round.pastTarget_of_allowed {round : Round Float} (stillOpen : round.loser = none)
    {number : Int} (allowed : rules.Allows number) {refusal : Refusal Float}
    (refused : round.speak rules (Number.ofInt number) = .error refusal) :
    refusal = .pastTarget (Number.ofInt number) rules.target round.total
      ∧ rules.target - round.total < Number.ofInt number := by
  have whole : Number.isInteger (Number.ofInt number : Float) = true := by
    rw [isInteger_eq_exact, Rules.exact_of_allows stored allowed]
    exact isInteger_int number
  exact pastTarget_of_within stillOpen whole ((Rules.allows_iff stored number).mp allowed) refused

theorem refusesTyped_size_iff (typed : String) :
    RefusesTyped rules typed s!"Only 1 to {plain rules.longestTurn} numbers may be spoken"
      ↔ ∃ number, Types typed.toList number ∧ ¬ rules.Allows number := by
  constructor
  · rintro ⟨refusal, refused, report⟩
    rcases readCount_cases stored typed with
      ⟨_, _, _, result⟩ | ⟨number, types, outside, _⟩ | ⟨_, result⟩
    · rw [result] at refused
      cases refused
    · exact ⟨number, types, outside⟩
    · rw [result] at refused
      obtain rfl := Except.error.inj refused
      exact absurd report.symm (typedCount_report_ne rules.longestTurn _)
  · rintro ⟨number, types, outside⟩
    rcases readCount_cases stored typed with
      ⟨other, also, allowed, _⟩ | ⟨_, _, _, result⟩ | ⟨none, _⟩
    · exact absurd (types.unique also ▸ allowed) outside
    · exact ⟨_, result, rfl⟩
    · exact absurd types (none number)

theorem refusesTyped_form_iff (typed : String) :
    RefusesTyped rules typed s!"Enter a whole number from 1 to {plain rules.longestTurn}"
      ↔ ∀ number, ¬ Types typed.toList number := by
  constructor
  · rintro ⟨refusal, refused, report⟩
    rcases readCount_cases stored typed with ⟨_, _, _, result⟩ | ⟨_, _, _, result⟩ | ⟨none, _⟩
    · rw [result] at refused
      cases refused
    · rw [result] at refused
      obtain rfl := Except.error.inj refused
      exact absurd report (typedCount_report_ne _ rules.longestTurn)
    · exact none
  · intro none
    rcases readCount_cases stored typed with
      ⟨number, types, _⟩ | ⟨number, types, _⟩ | ⟨_, result⟩
    · exact absurd types (none number)
    · exact absurd types (none number)
    · exact ⟨_, result, rfl⟩

end Stored

/-- A count is read from a text exactly if the text is a numeral of a count that the rules allow,
with white space around it or not, and the count is the number of the numeral. A numeral of any
other number is refused for its size, and every other text for its form. In an open round a count
that is read is refused only for passing the target. -/
theorem readCount_reads_numerals {rules : Rules Float} (valid : rules.WellFormed)
    (typed : String) :
    (∀ count, readCount rules typed = .ok count ↔ ∃ number, Types typed.toList number
        ∧ rules.Allows number ∧ count = Number.ofInt number)
      ∧ (∀ number, rules.Allows number → exact (Number.ofInt number) = rat number)
      ∧ (RefusesTyped rules typed s!"Only 1 to {plain rules.longestTurn} numbers may be spoken"
        ↔ ∃ number, Types typed.toList number ∧ ¬ rules.Allows number)
      ∧ (RefusesTyped rules typed s!"Enter a whole number from 1 to {plain rules.longestTurn}"
        ↔ ∀ number, ¬ Types typed.toList number)
      ∧ ∀ (round : Round Float) count refusal, round.loser = none →
        readCount rules typed = .ok count → round.speak rules count = .error refusal →
          refusal = .pastTarget count rules.target round.total
            ∧ rules.target - round.total < count := by
  obtain ⟨target, longestTurn, stored⟩ := valid.exists_stored
  refine ⟨readCount_ok_iff stored typed, fun number => Rules.exact_of_allows stored,
    refusesTyped_size_iff stored typed, refusesTyped_form_iff stored typed, ?_⟩
  intro round count refusal stillOpen read refused
  obtain ⟨number, -, allowed, rfl⟩ := (readCount_ok_iff stored typed count).mp read
  exact Round.pastTarget_of_allowed stored stillOpen allowed refused

/-- With three numbers a turn, at 20 of 21, a 3 with a sign, leading zeros and white space is read,
and then passes the target. -/
theorem readCount_reads_numerals_three :
    let rules : Rules Float := ⟨Number.ofNat 21, Number.ofNat 3⟩
    let round : Round Float := ⟨Number.ofNat 20, .human, [], none⟩
    rules.WellFormed ∧ readCount rules "\t +003\n" = .ok (Number.ofInt 3)
      ∧ (∃ refusal, round.speak rules (Number.ofInt 3) = .error refusal)
      ∧ rules.target - round.total < Number.ofInt 3 := by
  intro rules round
  have valid : rules.WellFormed := by constructor <;> decide +kernel
  obtain ⟨read, -, -, -, only⟩ := readCount_reads_numerals valid "\t +003\n"
  have types : Types "\t +003\n".toList 3 :=
    ⟨['\t', ' '], ['+', '0', '0', '3'], ['\n'], by decide,
      .plus ⟨by simp, by simp, rfl⟩, by simp [Text.isBlank, Text.blankCodes],
      by simp [Text.isBlank, Text.blankCodes]⟩
  have allowed : rules.Allows 3 := ⟨by decide, by decide +kernel⟩
  have three := (read (Number.ofInt 3)).mpr ⟨3, types, allowed, rfl⟩
  have refused : round.speak rules (Number.ofInt 3)
      = .error (.pastTarget (Number.ofInt 3) rules.target round.total) := by
    rw [Round.speak, if_neg (by decide), if_neg (by decide +kernel), if_pos (by decide +kernel)]
  exact ⟨valid, three, ⟨_, refused⟩, (only round _ _ rfl three refused).2⟩

end RuleAdvisor.Counting
