import RuleAdvisor.Proofs.Counting.Positions

/-!
Counts that are chosen. From a total that is not safe it is the one that wins. Where no count wins,
one is drawn from 1 to the greatest that may be taken at random, which the rules always allow, and a
value gives a count exactly if it lies in `[0, 1)`, however its share is rounded.
-/

namespace RuleAdvisor.Counting

open Exact (rat nan)
open IntegerCarrier

/-- An integer from 1 to `most`. -/
structure IsCount {α : Type} [Number α] (most count : α) : Prop where
  whole : Number.isInteger count = true
  least : 1 ≤ count
  most : count ≤ most

section Choice

variable {α : Type} [Number α] {rules : Rules α} {total : α}

theorem Rules.accepted_of_choose {source : RandomSource α} {count : α}
    (chosen : (rules.choose total source).1 = .ok count) :
    rules.check = .ok () ∧ rules.checkTotal total = .ok () := by
  unfold Rules.choose at chosen
  split at chosen
  · cases chosen
  · cases chosen
  · next accepted playable => exact ⟨accepted, playable⟩

theorem Rules.choose_of_accepted (accepted : rules.check = .ok ())
    (playable : rules.checkTotal total = .ok ()) (source : RandomSource α) :
    (rules.choose total source).1 = match rules.winningCount? total with
      | some count => .ok count
      | none => countFor (rules.mostAtRandom total) source.next.1 := by
  simp only [Rules.choose, accepted, playable]
  cases rules.winningCount? total with
  | some count => rfl
  | none => rfl

theorem Rules.choose_of_unplayable {refusal : Refusal α} (accepted : rules.check = .ok ())
    (unplayable : rules.checkTotal total = .error refusal) (source : RandomSource α) :
    rules.choose total source = (.error refusal, source) := by
  simp only [Rules.choose, accepted, unplayable]

end Choice

variable {α : Type} [Number α] [IntegerCarrier α]

theorem isCount_iff {most : α} {m : Int} (stands : Stands most m) (count : α) :
    IsCount most count ↔ ∃ said : Int, Stands count said ∧ 1 ≤ said ∧ said ≤ m := by
  constructor
  · rintro ⟨isWhole, least, atMost⟩
    obtain ⟨said, whole⟩ := (isInteger_iff count).mp isWhole
    rw [le_int_iff stands_one whole] at least
    rw [le_int_iff whole stands] at atMost
    exact ⟨said, whole, least, atMost⟩
  · rintro ⟨said, whole, least, atMost⟩
    exact ⟨(isInteger_iff count).mpr ⟨said, whole⟩, (le_int_iff stands_one whole).mpr least,
      (le_int_iff whole stands).mpr atMost⟩

theorem countFor_eq (most drawn : α) :
    countFor most drawn = if 0 ≤ drawn ∧ drawn < 1 then .ok (1 + Number.floor (drawn * most))
      else .error (.random drawn) := by
  have outside : (!Number.isFinite drawn) = true ∨ drawn < 0 ∨ 1 ≤ drawn
      ↔ ¬ (0 ≤ drawn ∧ drawn < 1) := by
    rw [isFinite_eq, lt_iff drawn 0, le_iff 1 drawn, le_iff 0 drawn, lt_iff drawn 1, stands_zero,
      stands_one]
    -- Of no number and of the infinities, none lies in `[0, 1)`.
    cases value drawn with
    | rat p =>
        rw [Exact.rat_lt, Exact.rat_le, Exact.rat_le, Exact.rat_lt, Int.cast_zero, Int.cast_one,
          not_and_or, not_le, not_lt]
        exact or_iff_right Bool.false_ne_true
    | posInf => exact iff_of_true (.inl rfl) fun within => Bool.false_ne_true within.2
    | negInf => exact iff_of_true (.inl rfl) fun within => Bool.false_ne_true within.1
    | nan => exact iff_of_true (.inl rfl) fun within => Bool.false_ne_true within.1
  unfold countFor
  by_cases within : 0 ≤ drawn ∧ drawn < 1
  · rw [if_pos within, if_neg fun excluded => outside.mp excluded within]
  · rw [if_neg within, if_pos (outside.mpr within)]

theorem countFor_refused_iff (most drawn : α) (refusal : Refusal α) :
    countFor most drawn = .error refusal
      ↔ refusal = .random drawn ∧ ¬ (0 ≤ drawn ∧ drawn < 1) := by
  rw [countFor_eq]
  split
  · next within => simp [within]
  · next outside => simp [outside, eq_comm]

/-- However its share is rounded, no value gives a count too many. -/
theorem exists_countFor {most drawn : α} {m : Int} (stands : Stands most m) (positive : 1 ≤ m)
    (small : m ≤ 1000) (within : 0 ≤ drawn ∧ drawn < 1) :
    ∃ said : Nat, countFor most drawn = .ok (Number.ofNat said) ∧ 1 ≤ said ∧ said ≤ m := by
  obtain ⟨n, rfl⟩ := Int.eq_ofNat_of_zero_le (by omega : 0 ≤ m)
  obtain ⟨p, given, nonneg, below⟩ := (within_unit_iff drawn).mp within
  obtain ⟨v, share, shareNonneg, short⟩ :=
    exists_share given nonneg below (stands.trans (by rw [Int.cast_natCast])) (by omega) (by omega)
  obtain ⟨part, whole⟩ := Int.eq_ofNat_of_zero_le (Int.floor_nonneg.mpr shareNonneg)
  have less : ⌊v⌋ < n := by rwa [Int.floor_lt, Int.cast_natCast]
  have counted := value_add stands_one (value_floor share) (small_of_le (by omega) (by omega))
  rw [whole] at less counted
  have countIs : 1 + Number.floor (drawn * most) = Number.ofNat (1 + part) :=
    eq_ofNat_of_stands (by omega) (by omega) counted
  refine ⟨1 + part, ?_, by omega, by omega⟩
  rw [countFor_eq, if_pos within, countIs]

namespace Rules.Stores

variable {rules : Rules α} {target longestTurn : Int} (stored : rules.Stores target longestTurn)
  {total : α} {played : Nat} (whole : Stands total played) (short : (played : Int) < target)

include stored whole short

theorem stands_mostAllowed :
    Stands (rules.mostAllowed total) (min longestTurn (target - played)) := by
  have targetMost := stored.limits.targetGreatest
  have left := value_sub stored.targetIs whole (small_of_le (by omega) (by omega))
  rw [Stands, mostAllowed, value_least, stored.turnIs, left, Exact.least_rat, Int.cast_min]

/-- At random, every count short of the target may be taken, and 1 if there is none. -/
theorem stands_mostAtRandom :
    Stands (rules.mostAtRandom total) (max 1 (min longestTurn (target - 1 - played))) := by
  obtain ⟨-, targetMost, turnLeast, turnMost, -⟩ := stored.limits
  have most := stored.stands_mostAllowed whole short
  have sum := value_add whole most (small_of_le (by omega) (by omega))
  have oneLess := value_sub most stands_one (small_of_le (by omega) (by omega))
  simp only [mostAtRandom, beq_iff sum stored.targetIs, lt_int_iff stands_one most]
  split
  · rw [Stands, oneLess]
    congr 2
    omega
  · rw [Stands, most]
    congr 2
    omega

theorem choose_of_safe (safe : longestTurn + 1 ∣ target - 1 - (played : Int))
    (source : RandomSource α) :
    rules.choose total source
      = (countFor (rules.mostAtRandom total) source.next.1, source.next.2) := by
  have playable := (stored.isPlayable_iff total).mpr ⟨played, whole, short⟩
  simp only [choose, stored.check, playable.check, stored.winningCount?_of_safe whole short safe,
    drawCount]

/-- From a total that is not safe a count that reaches a safe one is chosen, and none is drawn. -/
theorem choose_of_unsafe (notSafe : ¬ longestTurn + 1 ∣ target - 1 - (played : Int)) :
    ∃ said : Nat, (∀ source, rules.choose total source = (.ok (Number.ofNat said), source))
      ∧ 1 ≤ said ∧ said ≤ longestTurn ∧ ((played + said : Nat) : Int) < target
      ∧ longestTurn + 1 ∣ target - 1 - ((played + said : Nat) : Int) := by
  obtain ⟨-, -, turnLeast, turnMost, -⟩ := stored.limits
  have playable := (stored.isPlayable_iff total).mpr ⟨played, whole, short⟩
  obtain ⟨count, found, stands⟩ := stored.exists_winningCount whole short notSafe
  obtain ⟨said, rest, least, most, stillShort, safe⟩ :=
    exists_winning_count turnLeast short notSafe
  rw [rest] at stands
  obtain rfl : count = Number.ofNat said := eq_ofNat_of_stands least (by omega) stands
  refine ⟨said, fun source => ?_, least, most, stillShort, safe⟩
  simp only [choose, stored.check, playable.check, found]

/-- A count drawn at a safe total is within what is allowed, and speaks the target only from the
last total, where it is 1. -/
theorem exists_drawn {drawn : α} (within : 0 ≤ drawn ∧ drawn < 1) :
    ∃ said : Nat, countFor (rules.mostAtRandom total) drawn = .ok (Number.ofNat said)
      ∧ 1 ≤ said ∧ said ≤ longestTurn ∧ played + said ≤ target
      ∧ (played + said = target → (played : Int) = target - 1) := by
  obtain ⟨-, targetMost, turnLeast, turnMost, -⟩ := stored.limits
  obtain ⟨said, counted, least, most⟩ :=
    exists_countFor (stored.stands_mostAtRandom whole short) (le_max_left 1 _) (by omega) within
  exact ⟨said, counted, least, by omega, by omega, by omega⟩

theorem allowed_of_choose {source : RandomSource α} {count : α}
    (chosen : (rules.choose total source).1 = .ok count) :
    ∃ said : Nat, count = Number.ofNat said ∧ 1 ≤ said ∧ said ≤ longestTurn
      ∧ played + said ≤ target ∧ (played + said = target ↔ (played : Int) = target - 1) := by
  by_cases safe : longestTurn + 1 ∣ target - 1 - (played : Int)
  · rw [stored.choose_of_safe whole short safe] at chosen
    have within : 0 ≤ source.next.1 ∧ source.next.1 < 1 := by
      by_contra outside
      rw [(countFor_refused_iff _ _ _).mpr ⟨rfl, outside⟩] at chosen
      cases chosen
    obtain ⟨said, counted, least, most, fits, reached⟩ := stored.exists_drawn whole short within
    exact ⟨said, Except.ok.inj (chosen.symm.trans counted), least, most, fits, reached, by omega⟩
  · obtain ⟨said, found, least, most, stillShort, -⟩ := stored.choose_of_unsafe whole short safe
    rw [found] at chosen
    -- From an unsafe total the count stops short, and the last total is safe.
    have early : (played : Int) ≠ target - 1 := by
      intro last
      exact safe ⟨0, by omega⟩
    exact ⟨said, (Except.ok.inj chosen).symm, least, most, by omega, by omega⟩

end Rules.Stores

end RuleAdvisor.Counting
