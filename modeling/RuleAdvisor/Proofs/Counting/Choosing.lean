import RuleAdvisor.Proofs.Counting.Drawing

/-!
Choices, for whatever total is asked about. A total that cannot be played from is refused, from one
that is not safe the choice is the only count that reaches a safe total, and only from a safe total
a value is drawn. The target is spoken only where nothing else is left.
-/

namespace RuleAdvisor.Counting.Rules

open IntegerCarrier

/-- A count that a player may try to speak: an integer from 1 to the longest turn. -/
structure IsTurn {α : Type} [Number α] (rules : Rules α) (count : α) : Prop where
  whole : Number.isInteger count = true
  least : 1 ≤ count
  most : count ≤ rules.longestTurn

theorem isTurn_iff_isCount {α : Type} [Number α] (rules : Rules α) (count : α) :
    rules.IsTurn count ↔ IsCount rules.longestTurn count :=
  ⟨fun turn => ⟨turn.whole, turn.least, turn.most⟩, fun turn => ⟨turn.whole, turn.least, turn.most⟩⟩

/-- What a choice comes to, with the source as it is left. -/
structure Settles {α : Type} [Number α] [NumberText α] (rules : Rules α) (total : α)
    (source : RandomSource α) (outcome : Except (Refusal α) α × RandomSource α) : Prop where
  unplayable : (∃ refusal, outcome.1 = .error refusal ∧ refusal.report.kind = .invalidState)
    ↔ ¬ rules.IsPlayable total
  refused : ¬ rules.IsPlayable total → outcome = (.error (.total rules.lastTotal total), source)
  /-- From a total that is not safe, the only count that reaches a safe one. -/
  winning : rules.IsPlayable total → rules.isSafe total = false →
    ∃ count, outcome = (.ok count, source) ∧ rules.IsTurn count
      ∧ rules.isSafe (total + count) = true
      ∧ ∀ other, rules.IsTurn other → rules.isSafe (total + other) = true → other = count
  drawnOnce : rules.IsPlayable total → rules.isSafe total = true → outcome.2 = source.next.2
  /-- A value in `[0, 1)` gives a count that can be spoken, and any other value is refused. -/
  random : rules.IsPlayable total → rules.isSafe total = true →
    ((∃ refusal, outcome.1 = .error refusal ∧ refusal.report.kind = .randomSource)
        ↔ ¬ (0 ≤ source.next.1 ∧ source.next.1 < 1))
      ∧ (0 ≤ source.next.1 ∧ source.next.1 < 1 →
        ∃ count, outcome.1 = .ok count ∧ Number.isInteger count = true ∧ 1 ≤ count
          ∧ count ≤ rules.mostAllowed total)
  fits : ∀ count, outcome.1 = .ok count → total + count ≤ rules.target
    ∧ (total + count = rules.target ↔ total = rules.lastTotal)

variable {α : Type} [Number α] [IntegerCarrier α] {rules : Rules α} {target longestTurn : Int}

section Stored

variable (stored : rules.Stores target longestTurn)

include stored

theorem isTurn_iff (count : α) :
    rules.IsTurn count
      ↔ ∃ said : Nat, count = Number.ofNat said ∧ 1 ≤ said ∧ (said : Int) ≤ longestTurn := by
  obtain ⟨-, -, -, turnMost, -⟩ := stored.limits
  rw [isTurn_iff_isCount, isCount_iff stored.turnIs]
  constructor
  · rintro ⟨said, stands, least, most⟩
    obtain ⟨said, rfl⟩ := Int.eq_ofNat_of_zero_le (zero_le_one.trans least)
    exact ⟨said, eq_ofNat_of_stands (by omega) (by omega) stands, by omega, most⟩
  · rintro ⟨said, rfl, least, most⟩
    exact ⟨said, stands_ofNat (by omega), by omega, most⟩

theorem checkTotal_of_unplayable {total : α} (unplayable : ¬ rules.IsPlayable total) :
    rules.checkTotal total = .error (.total rules.lastTotal total) := by
  unfold checkTotal
  rw [if_pos]
  by_contra passes
  exact unplayable ((stored.checkTotal_eq_ok_iff total).mp (if_neg passes))

theorem settles_of_unplayable [NumberText α] {total : α} (unplayable : ¬ rules.IsPlayable total)
    (source : RandomSource α) : rules.Settles total source (rules.choose total source) := by
  rw [choose_of_unplayable stored.check (checkTotal_of_unplayable stored unplayable)]
  constructor
  case unplayable => exact iff_of_true ⟨_, rfl, rfl⟩ unplayable
  case refused => exact fun _ => rfl
  case fits => simp
  all_goals exact fun playable => absurd playable unplayable

section Playable

variable {total : α} {played : Nat} (whole : Stands total played) (short : (played : Int) < target)

include whole short

theorem fits_of_choose {source : RandomSource α} {count : α}
    (chosen : (rules.choose total source).1 = .ok count) :
    total + count ≤ rules.target ∧ (total + count = rules.target ↔ total = rules.lastTotal) := by
  obtain ⟨targetLeast, targetMost, -, turnMost, -⟩ := stored.limits
  obtain ⟨said, rfl, least, most, fits, reached⟩ := stored.allowed_of_choose whole short chosen
  have sum := value_add whole (stands_ofNat (by omega : said ≤ 2 ^ 53))
    (small_of_le (by omega) (by omega))
  rw [le_int_iff sum stored.targetIs, eq_int_iff sum stored.targetIs (by omega),
    eq_int_iff whole stored.stands_lastTotal (by omega)]
  exact ⟨fits, reached⟩

theorem settles_of_unsafe [NumberText α] (notSafe : ¬ longestTurn + 1 ∣ target - 1 - (played : Int))
    (source : RandomSource α) : rules.Settles total source (rules.choose total source) := by
  obtain ⟨-, targetMost, turnLeast, turnMost, -⟩ := stored.limits
  have playable : rules.IsPlayable total :=
    (stored.isPlayable_iff total).mpr ⟨played, whole, short⟩
  have unsafeTotal : ¬ rules.isSafe total = true :=
    mt (stored.isSafe_iff_dvd whole short).mp notSafe
  obtain ⟨said, chosen, least, most, stillShort, reached⟩ :=
    stored.choose_of_unsafe whole short notSafe
  -- Totals beyond the target are told apart as well, which the sum may be.
  have safeIff {other : Nat} (within : (other : Int) ≤ longestTurn) :
      rules.isSafe (total + Number.ofNat other) = true ↔ ((played + other : Nat) : Int) < target
        ∧ longestTurn + 1 ∣ target - 1 - ((played + other : Nat) : Int) := by
    have sum := value_add whole (stands_ofNat (by omega : other ≤ 2 ^ 53))
      (small_of_le (by omega) (by omega))
    rw [Nat.cast_add]
    exact stored.isSafe_iff sum fun _ => small_of_le (by omega) (by omega)
  constructor
  case unplayable => simp [chosen, playable]
  case refused => exact fun unplayable => absurd playable unplayable
  case winning =>
    intro _ _
    refine ⟨Number.ofNat said, chosen source,
      (isTurn_iff stored _).mpr ⟨said, rfl, least, most⟩,
      (safeIff most).mpr ⟨stillShort, reached⟩, ?_⟩
    intro other turn safe
    obtain ⟨other, rfl, -, within⟩ := (isTurn_iff stored other).mp turn
    rw [eq_of_reaches most within reached ((safeIff within).mp safe).2]
  case drawnOnce => exact fun _ safe => absurd safe unsafeTotal
  case random => exact fun _ safe => absurd safe unsafeTotal
  case fits => exact fun count found => fits_of_choose stored whole short found

theorem settles_of_safe [NumberText α] (safe : longestTurn + 1 ∣ target - 1 - (played : Int))
    (source : RandomSource α) : rules.Settles total source (rules.choose total source) := by
  have playable : rules.IsPlayable total :=
    (stored.isPlayable_iff total).mpr ⟨played, whole, short⟩
  have isSafe := (stored.isSafe_iff_dvd whole short).mpr safe
  have chosen := stored.choose_of_safe whole short safe source
  -- The value that is drawn is all that can be refused.
  have refused (refusal : Refusal α) (result : (rules.choose total source).1 = .error refusal) :
      refusal = .random source.next.1 ∧ ¬ (0 ≤ source.next.1 ∧ source.next.1 < 1) := by
    rw [chosen] at result
    exact (countFor_refused_iff _ _ _).mp result
  constructor
  case unplayable =>
    refine iff_of_false ?_ (not_not_intro playable)
    rintro ⟨refusal, result, kind⟩
    rw [(refused refusal result).1] at kind
    cases kind
  case refused => exact fun unplayable => absurd playable unplayable
  case winning =>
    intro _ unsafeTotal
    rw [isSafe] at unsafeTotal
    cases unsafeTotal
  case drawnOnce => exact fun _ _ => congrArg Prod.snd chosen
  case random =>
    intro _ _
    refine ⟨⟨?_, ?_⟩, ?_⟩
    · rintro ⟨refusal, result, -⟩
      exact (refused refusal result).2
    · intro outside
      refine ⟨.random source.next.1, ?_, rfl⟩
      rw [chosen]
      exact (countFor_refused_iff _ _ _).mpr ⟨rfl, outside⟩
    · intro within
      have turnMost := stored.limits.turnGreatest
      obtain ⟨said, counted, least, most, fits, -⟩ := stored.exists_drawn whole short within
      have stands : Stands (Number.ofNat said : α) said := stands_ofNat (by omega)
      refine ⟨Number.ofNat said, ?_, (isInteger_iff _).mpr ⟨said, stands⟩,
        (le_int_iff stands_one stands).mpr (by omega),
        (le_int_iff stands (stored.stands_mostAllowed whole short)).mpr (by omega)⟩
      rw [chosen]
      exact counted
  case fits => exact fun count found => fits_of_choose stored whole short found

end Playable

end Stored

/-- Whatever the total and the source, the choice is settled by the position: refused where there is
nothing to play, winning wherever a count wins, and otherwise drawn, once, among what is allowed,
however the share of a count is rounded. -/
theorem choose_settles [NumberText α] (valid : rules.WellFormed) (total : α)
    (source : RandomSource α) : rules.Settles total source (rules.choose total source) := by
  obtain ⟨target, longestTurn, stored⟩ := valid.exists_stored
  by_cases playable : rules.IsPlayable total
  · obtain ⟨played, whole, short⟩ := (stored.isPlayable_iff total).mp playable
    by_cases safe : longestTurn + 1 ∣ target - 1 - (played : Int)
    · exact settles_of_safe stored whole short safe source
    · exact settles_of_unsafe stored whole short safe source
  · exact settles_of_unplayable stored playable source

/-- With one number a turn, on doubles, a value of 1/2 drawn at 4 of 5, the last total, speaks the
target. -/
theorem choose_settles_last :
    let rules : Rules Float := ⟨5, 1⟩
    let source : RandomSource Float := .constant 0.5
    rules.WellFormed ∧ rules.Settles 4 source (rules.choose 4 source)
      ∧ (rules.choose 4 source).2.draws = 1 := by
  intro rules source
  have valid : rules.WellFormed := by constructor <;> decide +kernel
  have settled := choose_settles valid 4 source
  have playable : rules.IsPlayable 4 := by constructor <;> decide +kernel
  have safe : rules.isSafe 4 = true := by decide +kernel
  have drawn := settled.drawnOnce playable safe
  exact ⟨valid, settled, congrArg RandomSource.draws drawn⟩

end RuleAdvisor.Counting.Rules
