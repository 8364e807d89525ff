import RuleAdvisor.CommandLine.Program
import RuleAdvisor.Proofs.Counting.Shipped
import RuleAdvisor.Proofs.Decimal.Digits

/-!
The command that picks a count, from its argument to its output. A total that can be played from is
answered by one turn and nothing else; everything else is refused before anything is printed.
-/

namespace RuleAdvisor.CommandLine

open Counting Counting.Rules Log

section Parsing

variable {α : Type} [Number α] {argument : String}

theorem splitOperands_cons (plain : argument.toList.head? ≠ some '-') (rest : List String) :
    splitOperands (argument :: rest)
      = (argument :: (splitOperands rest).1, (splitOperands rest).2) := by
  have noOption : looksLikeOption argument.toList = false := by
    unfold looksLikeOption
    split
    · next dash => exact absurd (congrArg List.head? dash) plain
    · rfl
  have noEnd : argument = "--" → False := by
    rintro rfl
    exact plain rfl
  rw [splitOperands, noOption]
  · rfl
  · exact noEnd

theorem parse_move (plain : argument.toList.head? ≠ some '-') :
    (Command.parse ["move", argument] : Except UsageError (Command α))
      = match readTotal argument with
        | .ok total => .ok (.move total)
        | .error _ => .error (.badTotal argument) := by
  have noOptions : (parseOptions [] false [] : Except UsageError (Parsed α)) = .ok .empty := by
    rw [parseOptions]
  have operands : splitOperands ["move", argument] = (["move", argument], []) := by
    rw [splitOperands_cons (by decide), splitOperands_cons plain]
    rfl
  simp only [Command.parse, operands, parseMove, List.map_nil, noOptions]
  rfl

/-- The argument is the total in digits, but for the white space around them. -/
def Spells (argument : String) (total : Nat) : Prop :=
  Decimal.Writes (Text.trimChars argument.toList) total

theorem readTotal_of_spelled {total : Nat} (spelled : Spells argument total) :
    (readTotal argument : Except Expectation α) = .ok (Number.ofNat total) := by
  rw [readTotal, (Decimal.natural?_eq_some_iff _ _).mpr spelled]

theorem readTotal_of_none (unspelled : ∀ total, ¬ Spells argument total) :
    (readTotal argument : Except Expectation α) = .error .wholeNumber := by
  have unread : Decimal.natural? 10 (Text.trimChars argument.toList) = none := by
    rw [Option.eq_none_iff_forall_ne_some]
    intro total read
    exact unspelled total ((Decimal.natural?_eq_some_iff _ _).mp read)
  rw [readTotal, unread]

end Parsing

section Runs

variable {α : Type} [Number α] [NumberText α] {argument : String}

def usualLogger : Logger := ⟨.info, [⟨.console true, .debug⟩], .plain⟩

theorem run_of_command {arguments : List String} {command : Command α}
    (parsed : Command.parse arguments = .ok command) (random : α) :
    run .empty arguments random = runCommand usualLogger random command := by
  have usual : readSettings .empty = ⟨.usual, []⟩ := rfl
  simp only [run, usual, parsed]
  rfl

theorem run_of_fault {arguments : List String} {fault : UsageError}
    (faulty : (Command.parse arguments : Except UsageError (Command α)) = .error fault)
    (random : α) : run .empty arguments random = .failed [fault.message] := by
  have usual : readSettings .empty = ⟨.usual, []⟩ := rfl
  simp only [run, usual, faulty]
  rfl

theorem run_move_of_spelled (plain : argument.toList.head? ≠ some '-') {total : Nat}
    (spelled : Spells argument total) (random : α) :
    run .empty ["move", argument] random
      = runMove usualLogger (Number.ofNat total) random := by
  have parsed : Command.parse ["move", argument] = .ok (.move (Number.ofNat total : α)) := by
    rw [parse_move plain, readTotal_of_spelled spelled]
  exact run_of_command parsed random

theorem run_move_of_none (plain : argument.toList.head? ≠ some '-')
    (unspelled : ∀ total, ¬ Spells argument total) (random : α) :
    run .empty ["move", argument] random = .failed [(UsageError.badTotal argument).message] := by
  have faulty : (Command.parse ["move", argument] : Except UsageError (Command α))
      = .error (.badTotal argument) := by
    rw [parse_move plain, readTotal_of_none unspelled]
  exact run_of_fault faulty random

end Runs

/-- A turn of at most three numbers that does not pass 21, and that ends on a multiple of 4 unless
it starts from one. -/
structure Turned (total count : Nat) : Prop where
  positive : 0 < count
  most : count ≤ 3
  within : total + count ≤ 21
  safe : ¬ 4 ∣ total → 4 ∣ total + count

def turnLines (total count : Nat) : List String :=
  ["Computer says: " ++ ", ".intercalate ((List.range' (total + 1) count).map toString),
    "Running total: " ++ toString (total + count)]
    ++ if total = 20 then ["Computer said 21 and loses"] else []

section Turn

variable {total count : Nat} (turn : Turned total count)

include turn

theorem Turned.speaks_target_iff : total + count = 21 ↔ total = 20 := by
  obtain ⟨positive, most, within, safe⟩ := turn
  omega

theorem runMove_of_choice {random : Float}
    (chosen : (shipped.choose (Number.ofNat total) (.constant random)).1
      = .ok (Number.ofNat count)) :
    runMove usualLogger (Number.ofNat total) random = ⟨0, output (turnLines total count)⟩ := by
  have sum := ofNat_add_ofNat turn.within
  have digits := plain_ofNat (total + count) (Nat.lt_succ_of_le turn.within)
  have spoken : Report.spoken (Number.ofNat total : Float) (Number.ofNat count)
      = "Computer says: "
        ++ ", ".intercalate ((List.range' (total + 1) count).map toString) :=
    congrArg ("Computer says: " ++ ·) (spokenText_ofNat turn.positive turn.within)
  have running : Report.runningTotal (Number.ofNat total : Float) (Number.ofNat count)
      = "Running total: " ++ toString (total + count) := by
    rw [← digits, ← sum]
    rfl
  have loses : (Number.ofNat (total + count) == shipped.target) = true ↔ total = 20 := by
    rw [reaches_shipped turn.within]
    exact turn.speaks_target_iff
  have target : NumberText.plain shipped.target = "21" := plain_ofNat 21 (by decide)
  have quiet : ∀ text, usualLogger.log .debug text = [] := fun _ => rfl
  have rules : (Shipped.gameRules : Rules Float) = shipped := rfl
  simp only [runMove, rules, chosen, quiet, spoken, running, sum, loses, target]
  rfl

end Turn

theorem text_output (exitCode : Nat) (lines : List String) :
    Outcome.text ⟨exitCode, output lines⟩ .output = String.join (lines.map (· ++ "\n"))
      ∧ Outcome.text ⟨exitCode, output lines⟩ .errors = "" := by
  have kept : (output lines).filter (fun printed => printed.stream == .output) = output lines :=
    List.filter_eq_self.mpr (by simp [output])
  have dropped : (output lines).filter (fun printed => printed.stream == .errors) = [] :=
    List.filter_eq_nil_iff.mpr (by simp [output])
  constructor
  · rw [Outcome.text, kept, output, List.map_map]
    rfl
  · rw [Outcome.text, dropped]
    rfl

/-- A total up to 20 that the argument spells. Where no count wins, the random value has to give
one. -/
structure Playable (argument : String) (random : Float) (total : Nat) : Prop where
  spelled : Spells argument total
  short : total ≤ 20
  usable : (0 ≤ random ∧ random < 1) ∨ ¬ 4 ∣ total

/-- Nothing but a turn is printed. -/
structure Answers (outcome : Outcome) (total count : Nat) : Prop where
  exitCode : outcome.exitCode = 0
  errors : outcome.text .errors = ""
  printed : outcome.text .output = String.join ((turnLines total count).map (· ++ "\n"))

/-- Whatever is printed, it is no turn. -/
structure Refuses (outcome : Outcome) : Prop where
  exitCode : outcome.exitCode = 1
  printed : outcome.text .output = ""

theorem runMove_playable {total : Nat} {random : Float} (short : total ≤ 20)
    (usable : (0 ≤ random ∧ random < 1) ∨ ¬ 4 ∣ total) :
    ∃ count, Turned total count
      ∧ Answers (runMove usualLogger (Number.ofNat total) random) total count := by
  obtain ⟨count, positive, most, within, safe, chosen⟩ := exists_choice short usable
  have turn : Turned total count := ⟨positive, most, within, safe⟩
  obtain ⟨printed, silent⟩ := text_output 0 (turnLines total count)
  refine ⟨count, turn, ?_⟩
  rw [runMove_of_choice turn chosen]
  exact ⟨rfl, silent, printed⟩

theorem runMove_unplayable {total : Nat} {random : Float}
    (unusable : ¬ (total ≤ 20 ∧ ((0 ≤ random ∧ random < 1) ∨ ¬ 4 ∣ total))) :
    Refuses (runMove usualLogger (Number.ofNat total) random) := by
  obtain ⟨refusal, failed⟩ := exists_refusal unusable
  have rules : (Shipped.gameRules : Rules Float) = shipped := rfl
  simp only [runMove, rules, failed]
  exact ⟨rfl, rfl⟩

/-- For every argument that is no option, and every random value: a playable total is answered by
a turn, and everything else is refused. -/
theorem run_move_answers_or_refuses {argument : String}
    (plain : argument.toList.head? ≠ some '-') (random : Float) :
    (∀ total, Playable argument random total → ∃ count, Turned total count
        ∧ Answers (run .empty ["move", argument] random) total count)
      ∧ ((∀ total, ¬ Playable argument random total)
        → Refuses (run .empty ["move", argument] random)) := by
  constructor
  · rintro total ⟨spelled, short, usable⟩
    rw [run_move_of_spelled plain spelled]
    exact runMove_playable short usable
  · intro unplayable
    -- Either the argument is refused as it is read, or the total or the value by the rules.
    by_cases spelled : ∃ total, Spells argument total
    · obtain ⟨total, spelled⟩ := spelled
      rw [run_move_of_spelled plain spelled]
      refine runMove_unplayable fun usable => ?_
      exact unplayable total ⟨spelled, usable.1, usable.2⟩
    · rw [run_move_of_none plain (not_exists.mp spelled)]
      exact ⟨rfl, rfl⟩

/-- From 17 no random value is needed; 21 is no total to play from. -/
theorem run_move_answers_seventeen_refuses_twentyOne :
    (" 017\n".toList.head? ≠ some '-' ∧ Playable " 017\n" (-1) 17
        ∧ ∃ count, Turned 17 count
          ∧ Answers (run .empty ["move", " 017\n"] (-1 : Float)) 17 count)
      ∧ "21".toList.head? ≠ some '-' ∧ (∀ total, ¬ Playable "21" 0.5 total)
        ∧ Refuses (run .empty ["move", "21"] (0.5 : Float)) := by
  have plain : " 017\n".toList.head? ≠ some '-' := by decide
  have spelled : Spells " 017\n" 17 := by
    have text : Text.trimChars " 017\n".toList = ['0', '1', '7'] := by decide
    rw [Spells, text]
    exact ⟨by simp, by simp, rfl⟩
  have playable : Playable " 017\n" (-1) 17 := ⟨spelled, by decide, .inr (by decide)⟩
  have plainTarget : "21".toList.head? ≠ some '-' := by decide
  have unplayable : ∀ total, ¬ Playable "21" 0.5 total := by
    rintro total ⟨spelled, short, -⟩
    have target : total = 21 := spelled.value.symm.trans (by decide)
    omega
  exact ⟨⟨plain, playable, (run_move_answers_or_refuses plain (-1)).1 17 playable⟩,
    plainTarget, unplayable, (run_move_answers_or_refuses plainTarget 0.5).2 unplayable⟩

end RuleAdvisor.CommandLine
