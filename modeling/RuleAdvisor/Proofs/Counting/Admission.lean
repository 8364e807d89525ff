import RuleAdvisor.Proofs.Counting.Choosing

/-!
Rules as they are entered, where a setting may be missing. The check passes over a missing setting
and is exact about all that is given; rules with both settings given that pass it choose only counts
that they allow, and rules without one of them choose none that is a number.
-/

namespace RuleAdvisor.Counting

open Exact (rat nan)
open IntegerCarrier

theorem Rules.exists_issues_of_refused {α : Type} [Number α] {rules : Rules α}
    (refused : rules.check ≠ .ok ()) :
    ∃ issues, issues ≠ [] ∧ rules.check = .error (.rules issues) := by
  unfold Rules.check at refused ⊢
  split
  · next usable => exact absurd (if_pos usable) refused
  · next unusable =>
      refine ⟨errorsOf rules.issues, ?_, rfl⟩
      simpa [isUsable] using unusable

variable {α : Type} [Number α] [IntegerCarrier α]

theorem Rules.exists_choose {rules : Rules α} (accepted : rules.check = .ok ()) {total : α}
    (playable : rules.IsPlayable total) {source : RandomSource α}
    (within : 0 ≤ source.next.1 ∧ source.next.1 < 1) :
    ∃ count, (rules.choose total source).1 = .ok count := by
  rw [choose_of_accepted accepted playable.check]
  cases rules.winningCount? total with
  | some count => exact ⟨count, rfl⟩
  | none => exact ⟨_, (countFor_eq _ _).trans (if_pos within)⟩

section Lacking

variable {rules : Rules α} (lacking : value rules.target = nan ∨ value rules.longestTurn = nan)

include lacking

theorem Rules.nextSafe?_lacking {total safe : α} (found : rules.nextSafe? total = some safe) :
    value safe = nan := by
  simp only [nextSafe?] at found
  split at found
  · cases found
  · rw [Option.some_inj] at found
    rw [← found]
    apply value_sub_nan
    rcases lacking with noTarget | noTurn
    · exact .inl (value_sub_nan (.inl noTarget))
    · exact .inr (value_mul_nan (.inr (value_add_nan (.inl noTurn))))

theorem Rules.winningCount?_lacking (total : α) : rules.winningCount? total = none := by
  unfold winningCount?
  cases next : rules.nextSafe? total with
  | none => rfl
  | some safe =>
      have distance : value (safe - total) = nan :=
        value_sub_nan (.inl (nextSafe?_lacking lacking next))
      have unreachable : ¬ (1 : α) ≤ safe - total := by
        rw [le_iff, distance]
        exact fun atMost => (Exact.ne_nan_of_le atMost).2 rfl
      simp only [unreachable, false_and, if_false]

theorem Rules.mostAtRandom_lacking (total : α) : value (rules.mostAtRandom total) = nan := by
  have most : value (rules.mostAllowed total) = nan := by
    rw [mostAllowed, value_least]
    rcases lacking with noTarget | noTurn
    · rw [value_sub_nan (.inl noTarget), Exact.least_nan_right]
    · rw [noTurn, Exact.least_nan_left]
  simp only [mostAtRandom]
  split
  · exact value_sub_nan (.inl most)
  · exact most

/-- What is chosen is drawn, from a greatest count that is no number. -/
theorem Rules.sum_of_choose_lacking {total count : α} {source : RandomSource α}
    (chosen : (rules.choose total source).1 = .ok count) :
    ∃ drawn, value drawn = nan ∧ count = 1 + drawn := by
  obtain ⟨accepted, playable⟩ := accepted_of_choose chosen
  rw [choose_of_accepted accepted playable, winningCount?_lacking lacking] at chosen
  simp only [countFor] at chosen
  split at chosen
  · cases chosen
  · exact ⟨_, value_floor_nan (value_mul_nan (.inr (mostAtRandom_lacking lacking total))),
      (Except.ok.inj chosen).symm⟩

end Lacking

/-- Each setting that is given is an integer within its limits, and the longest turn lies below the
target if both are given. -/
structure Rules.Admissible (rules : Rules (Entry α)) : Prop where
  target : ∀ target, rules.target = .given target →
    ∃ n : Int, value target = rat n ∧ 2 ≤ n ∧ n ≤ 1000
  longestTurn : ∀ turn, rules.longestTurn = .given turn →
    ∃ n : Int, value turn = rat n ∧ 1 ≤ n ∧ n ≤ 100
  turnBelowTarget : ∀ target turn, rules.target = .given target →
    rules.longestTurn = .given turn → turn < target

theorem Rules.Admissible.exists_stored {rules : Rules (Entry α)} (admissible : rules.Admissible)
    (hasTarget : rules.target ≠ .missing) (hasTurn : rules.longestTurn ≠ .missing) :
    ∃ target longestTurn : Int, rules.Stores target longestTurn := by
  obtain ⟨target, turn⟩ := rules
  cases target with
  | missing => exact absurd rfl hasTarget
  | given x =>
      cases turn with
      | missing => exact absurd rfl hasTurn
      | given y =>
          have apart := admissible.turnBelowTarget x y rfl rfl
          obtain ⟨n, targetIs, targetLeast, targetMost⟩ := admissible.target x rfl
          obtain ⟨m, turnIs, turnLeast, turnMost⟩ := admissible.longestTurn y rfl
          rw [lt_int_iff turnIs targetIs] at apart
          exact ⟨n, m, targetIs, turnIs, targetLeast, targetMost, turnLeast, turnMost, apart⟩

section Entered

variable (present : ∀ x : α, Number.isGiven x = true)

include present

theorem integerWithin_iff {least greatest : Nat} (ordered : least ≤ greatest)
    (small : greatest ≤ 2 ^ 53) (entry : Entry α) :
    (Number.isGiven entry = true → Number.isInteger entry = true
        ∧ ¬ entry < Number.ofNat least ∧ ¬ Number.ofNat greatest < entry)
      ↔ ∀ x, entry = .given x → ∃ n : Int, value x = rat n ∧ (least : Int) ≤ n ∧ n ≤ greatest := by
  cases entry with
  | missing => simp
  | given x =>
      have lower : Stands (Number.ofNat least : Entry α) least := stands_ofNat (by omega)
      have upper : Stands (Number.ofNat greatest : Entry α) greatest := stands_ofNat small
      simp only [Entry.isGiven_given, present, true_implies, isInteger_iff, Entry.given.injEq,
        forall_eq']
      constructor
      · rintro ⟨⟨n, whole⟩, notBelow, notAbove⟩
        rw [lt_int_iff whole lower, not_lt] at notBelow
        rw [lt_int_iff upper whole, not_lt] at notAbove
        exact ⟨n, whole, notBelow, notAbove⟩
      · rintro ⟨n, whole, above, below⟩
        have whole : Stands (Entry.given x) n := whole
        rw [lt_int_iff whole lower, lt_int_iff upper whole, not_lt, not_lt]
        exact ⟨⟨n, whole⟩, above, below⟩

theorem Rules.check_entered_iff (rules : Rules (Entry α)) :
    rules.check = .ok () ↔ rules.Admissible := by
  have targetIff :=
    integerWithin_iff present (by decide : 2 ≤ 1000) (by decide) rules.target
  have turnIff :=
    integerWithin_iff present (by decide : 1 ≤ 100) (by decide) rules.longestTurn
  rw [check_eq_ok_iff_usable, isUsable_issues, isUsable_checkIntegerRange,
    isUsable_checkIntegerRange]
  refine (and_congr targetIff (and_congr turnIff Iff.rfl)).trans ?_
  obtain ⟨target, turn⟩ := rules
  constructor
  · rintro ⟨targetWithin, turnWithin, apart⟩
    refine ⟨targetWithin, turnWithin, ?_⟩
    rintro x y rfl rfl
    obtain ⟨n, targetIs, -⟩ := targetWithin x rfl
    obtain ⟨m, turnIs, -⟩ := turnWithin y rfl
    rw [Entry.given_le, le_int_iff targetIs turnIs, not_le] at apart
    exact (lt_int_iff turnIs targetIs).mpr apart
  · rintro ⟨targetWithin, turnWithin, below⟩
    refine ⟨targetWithin, turnWithin, ?_⟩
    -- A missing setting reaches nothing, so both are given here.
    intro reached
    cases target with
    | missing => exact Bool.false_ne_true reached
    | given x =>
        cases turn with
        | missing => exact Bool.false_ne_true reached
        | given y =>
            have apart := below x y rfl rfl
            obtain ⟨n, targetIs, -⟩ := targetWithin x rfl
            obtain ⟨m, turnIs, -⟩ := turnWithin y rfl
            rw [Entry.given_le, le_int_iff targetIs turnIs] at reached
            rw [lt_int_iff turnIs targetIs] at apart
            omega

/-- The check passes exactly the admissible rules and refuses all others for at least one issue. A
choice is therefore made with admissible rules only. If both settings are given, it is a count from
1 to the longest turn, and without one of them it is no number. One is made from every total that
can be played from as long as the source keeps to `[0, 1)`. -/
theorem Rules.check_protects_choice [NumberText (Entry α)] (rules : Rules (Entry α)) :
    (rules.check = .ok () ↔ rules.Admissible)
      ∧ (¬ rules.Admissible → ∃ issues, issues ≠ [] ∧ rules.check = .error (.rules issues)
        ∧ (Refusal.rules issues).report = .ofIssues .gameRules (issues.map Issue.describe))
      ∧ (∀ total source count, (rules.choose total source).1 = .ok count → rules.Admissible
        ∧ (rules.target ≠ .missing ∧ rules.longestTurn ≠ .missing → rules.IsTurn count)
        ∧ (rules.target = .missing ∨ rules.longestTurn = .missing →
          ∃ x, count = .given x ∧ value x = nan))
      ∧ (rules.Admissible → ∀ total source, rules.IsPlayable total →
        0 ≤ source.next.1 ∧ source.next.1 < 1 →
          ∃ count, (rules.choose total source).1 = .ok count) := by
  have passes := check_entered_iff present rules
  refine ⟨passes, ?_, ?_, ?_⟩
  · intro refused
    obtain ⟨issues, nonempty, reported⟩ := exists_issues_of_refused (mt passes.mp refused)
    exact ⟨issues, nonempty, reported, rfl⟩
  · intro total source count chosen
    obtain ⟨accepted, playable⟩ := accepted_of_choose chosen
    have admissible := passes.mp accepted
    refine ⟨admissible, ?_, ?_⟩
    · rintro ⟨hasTarget, hasTurn⟩
      obtain ⟨target, longestTurn, stored⟩ := admissible.exists_stored hasTarget hasTurn
      obtain ⟨played, whole, short⟩ :=
        (stored.isPlayable_iff total).mp ((stored.checkTotal_eq_ok_iff total).mp playable)
      obtain ⟨said, rfl, least, most, -⟩ := stored.allowed_of_choose whole short chosen
      exact (isTurn_iff stored _).mpr ⟨said, rfl, least, most⟩
    · intro lacking
      have noNumber : value rules.target = nan ∨ value rules.longestTurn = nan := by
        -- A missing setting stands for no number, and neither does what is computed from it.
        rcases lacking with noTarget | noTurn
        · exact .inl (by rw [noTarget]; rfl)
        · exact .inr (by rw [noTurn]; rfl)
      obtain ⟨drawn, undefined, rfl⟩ := sum_of_choose_lacking noNumber chosen
      cases drawn with
      | missing => exact ⟨_, rfl, value_notANumber⟩
      | given x => exact ⟨_, rfl, value_add_nan (.inr undefined)⟩
  · intro admissible total source playable within
    exact exists_choose (passes.mpr admissible) playable within

end Entered

/-- Of the shipped limits, on doubles, from a safe total, with a source that always gives one half;
and a turn that reaches the target, which is refused. -/
theorem Rules.check_protects_choice_half :
    let rules : Rules (Entry Float) := ⟨.given 21, .given 3⟩
    let reaching : Rules (Entry Float) := ⟨.given 21, .given 21⟩
    (∀ x : Float, Number.isGiven x = true) ∧ rules.Admissible
      ∧ (∃ count, (rules.choose (.given 4) (.constant (.given 0.5))).1 = .ok count
        ∧ rules.IsTurn count)
      ∧ ∃ issues, issues ≠ [] ∧ reaching.check = .error (.rules issues) := by
  intro rules reaching
  have present : ∀ x : Float, Number.isGiven x = true := fun _ => rfl
  have textless : NumberText (Entry Float) := ⟨fun _ => "", fun _ _ => ""⟩
  obtain ⟨passes, -, chosen, chooses⟩ := Rules.check_protects_choice present rules
  obtain ⟨alsoPasses, refuses, -, -⟩ := Rules.check_protects_choice present reaching
  have admissible : rules.Admissible := passes.mp (if_pos (by decide +kernel))
  have playable : rules.IsPlayable (.given 4) := by constructor <;> decide +kernel
  obtain ⟨count, returned⟩ := chooses admissible (.given 4) (.constant (.given 0.5)) playable
    (by decide +kernel)
  have turn := (chosen _ _ _ returned).2.1 ⟨by simp [rules], by simp [rules]⟩
  have inadmissible : ¬ reaching.Admissible := by
    intro also
    have below := also.turnBelowTarget 21 21 rfl rfl
    exact absurd below (by decide +kernel)
  obtain ⟨issues, nonempty, refused, -⟩ := refuses inadmissible
  exact ⟨present, admissible, ⟨count, returned, turn⟩, issues, nonempty, refused⟩

def targetless : Rules (Entry Exact) := ⟨.missing, .given (rat (3 : Int))⟩

/-- The check lets rules without a target through, and what they choose is no number. -/
theorem Rules.missing_target_passes :
    targetless.check = .ok () ∧ ¬ targetless.WellFormed
      ∧ (targetless.choose (.given (rat (0 : Int))) (.constant (.given (rat (1 / 2))))).1
        = .ok (.given nan) := by
  have accepted : targetless.check = .ok () := if_pos (by decide +kernel)
  have chosen : (targetless.choose (.given (rat (0 : Int)))
      (.constant (.given (rat (1 / 2))))).1.toOption = some (.given nan) := by decide +kernel
  refine ⟨accepted, fun valid => Bool.false_ne_true valid.targetWhole, ?_⟩
  cases outcome : (targetless.choose (.given (rat (0 : Int)))
      (.constant (.given (rat (1 / 2))))).1 with
  | error refusal =>
      rw [outcome] at chosen
      cases chosen
  | ok count =>
      rw [outcome] at chosen
      exact congrArg Except.ok (Option.some.inj chosen)

end RuleAdvisor.Counting
