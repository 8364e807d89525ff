import Mathlib.Data.List.Basic
import Mathlib.Data.List.TakeWhile
import RuleAdvisor.Decimal.Numeral

/-!
Texts of decimal digits and the natural numbers they stand for, and the integers they stand for
behind a sign. Leading zeros are read, no number of digits is too great, and white space around a
numeral is not looked at.
-/

namespace RuleAdvisor.Decimal

/-- The text consists of digits, of at least one, and they stand for the number. -/
structure Writes (text : List Char) (number : Nat) : Prop where
  nonempty : text ≠ []
  digits : ∀ c ∈ text, c.isDigit = true
  value : Nat.ofDigitChars 10 text 0 = number

theorem digitValue_of_isDigit {c : Char} (digit : c.isDigit = true) :
    digitValue c = c.toNat - '0'.toNat := if_pos digit

theorem isDigitIn_ten (c : Char) : isDigitIn 10 c = c.isDigit := by
  unfold isDigitIn
  cases digit : c.isDigit with
  | true =>
      have most : c.toNat ≤ 57 := (Char.isDigit_iff_toNat.mp digit).2
      have small : c.toNat - 48 < 10 := by omega
      rw [digitValue_of_isDigit digit, Bool.true_or, Bool.true_and, decide_eq_true_iff]
      exact small
  | false =>
      have great : ¬ digitValue c < 10 := by
        simp [digitValue, digit]
      simp [great]

theorem valueOf_ten {text : List Char} (digits : ∀ c ∈ text, c.isDigit = true) :
    valueOf 10 text = Nat.ofDigitChars 10 text 0 := by
  rw [Nat.ofDigitChars_eq_foldl, valueOf]
  exact List.foldl_ext _ _ _ fun value c member => by
    rw [digitValue_of_isDigit (digits c member)]

theorem natural?_eq_some_iff (text : List Char) (number : Nat) :
    natural? 10 text = some number ↔ Writes text number := by
  have accepted : (!text.isEmpty && text.all (isDigitIn 10)) = true
      ↔ text ≠ [] ∧ ∀ c ∈ text, c.isDigit = true := by
    simp [isDigitIn_ten]
  unfold natural?
  constructor
  · intro read
    split at read
    · next passed =>
        obtain ⟨nonempty, digits⟩ := accepted.mp passed
        rw [valueOf_ten digits, Option.some.injEq] at read
        exact ⟨nonempty, digits, read⟩
    · cases read
  · rintro ⟨nonempty, digits, rfl⟩
    rw [if_pos (accepted.mpr ⟨nonempty, digits⟩), valueOf_ten digits]

/-- Digits and the number they stand for, behind one sign at most. -/
inductive WritesSigned : List Char → Int → Prop where
  | unsigned {text : List Char} {number : Nat} (digits : Writes text number) :
      WritesSigned text number
  | plus {text : List Char} {number : Nat} (digits : Writes text number) :
      WritesSigned ('+' :: text) number
  | minus {text : List Char} {number : Nat} (digits : Writes text number) :
      WritesSigned ('-' :: text) (-number)

theorem splitSign_of_digits {text : List Char} (digits : ∀ c ∈ text, c.isDigit = true) :
    splitSign text = (false, text) := by
  unfold splitSign
  split
  · next rest => exact absurd (digits '+' List.mem_cons_self) (by decide)
  · next rest => exact absurd (digits '-' List.mem_cons_self) (by decide)
  · rfl

theorem integer?_eq (text : List Char) :
    integer? text = (natural? 10 (splitSign text).2).map fun size : Nat =>
      if (splitSign text).1 then -(size : Int) else (size : Int) := by
  unfold integer?
  generalize splitSign text = parts
  obtain ⟨negative, digits⟩ := parts
  dsimp only
  cases natural? 10 digits <;> rfl

theorem integer?_eq_some_iff (text : List Char) (number : Int) :
    integer? text = some number ↔ WritesSigned text number := by
  constructor
  · intro read
    rw [integer?_eq] at read
    obtain ⟨size, digits, rfl⟩ := Option.map_eq_some_iff.mp read
    rw [natural?_eq_some_iff] at digits
    unfold splitSign at digits ⊢
    split at digits
    · exact .plus digits
    · exact .minus digits
    · exact .unsigned digits
  · rintro (digits | digits | digits)
    all_goals have read := (natural?_eq_some_iff _ _).mpr digits
    · rw [integer?_eq, splitSign_of_digits digits.digits, read]
      rfl
    · rw [integer?_eq, splitSign, read]
      rfl
    · rw [integer?_eq, splitSign, read]
      rfl

theorem not_isBlank_of_isDigit {c : Char} (digit : c.isDigit = true) : Text.isBlank c = false := by
  have none : ∀ code ∈ Text.blankCodes, code < 48 ∨ 57 < code := by decide
  have least : 48 ≤ c.toNat := (Char.isDigit_iff_toNat.mp digit).1
  have most : c.toNat ≤ 57 := (Char.isDigit_iff_toNat.mp digit).2
  rw [Text.isBlank, Bool.eq_false_iff, ne_eq, List.contains_iff_mem]
  intro blank
  have apart := none c.toNat blank
  omega

theorem WritesSigned.not_isBlank {text : List Char} {number : Int}
    (writes : WritesSigned text number) : ∀ c ∈ text, Text.isBlank c = false := by
  rcases writes with digits | digits | digits
  · exact fun c member => not_isBlank_of_isDigit (digits.digits c member)
  all_goals
    rw [List.forall_mem_cons]
    exact ⟨by decide, fun c member => not_isBlank_of_isDigit (digits.digits c member)⟩

/-- The text of a numeral, with any white space before and behind it. -/
def Types (typed : List Char) (number : Int) : Prop :=
  ∃ before numeral after, typed = before ++ numeral ++ after ∧ WritesSigned numeral number
    ∧ (∀ c ∈ before, Text.isBlank c = true) ∧ ∀ c ∈ after, Text.isBlank c = true

theorem dropWhile_of_inside {text : List Char} (inside : ∀ c ∈ text, Text.isBlank c = false) :
    text.dropWhile Text.isBlank = text :=
  List.dropWhile_eq_self_iff.mpr fun _ => by simp [inside]

theorem trimChars_framed {before text after : List Char}
    (inside : ∀ c ∈ text, Text.isBlank c = false) (front : ∀ c ∈ before, Text.isBlank c = true)
    (back : ∀ c ∈ after, Text.isBlank c = true) :
    Text.trimChars (before ++ text ++ after) = text := by
  have insideBack : ∀ c ∈ text.reverse, Text.isBlank c = false := by simpa using inside
  have behind : ∀ c ∈ after.reverse, Text.isBlank c = true := by simpa using back
  rw [Text.trimChars, List.append_assoc, List.dropWhile_append_of_pos front]
  cases text with
  | nil =>
      rw [List.nil_append, List.dropWhile_eq_nil_iff.mpr back]
      rfl
  | cons first rest =>
      have start : ((first :: rest) ++ after).dropWhile Text.isBlank = (first :: rest) ++ after :=
        List.dropWhile_cons_of_neg (by simp [inside first List.mem_cons_self])
      rw [start, List.reverse_append, List.dropWhile_append_of_pos behind,
        dropWhile_of_inside insideBack, List.reverse_reverse]

theorem exists_frame (text : List Char) :
    ∃ before after, text = before ++ Text.trimChars text ++ after
      ∧ (∀ c ∈ before, Text.isBlank c = true) ∧ ∀ c ∈ after, Text.isBlank c = true := by
  refine ⟨text.takeWhile Text.isBlank,
    ((text.dropWhile Text.isBlank).reverse.takeWhile Text.isBlank).reverse, ?_, ?_, ?_⟩
  · rw [Text.trimChars, List.append_assoc, ← List.reverse_append, List.takeWhile_append_dropWhile,
      List.reverse_reverse, List.takeWhile_append_dropWhile]
  · exact fun c member => List.mem_takeWhile_imp member
  · intro c member
    rw [List.mem_reverse] at member
    exact List.mem_takeWhile_imp member

theorem types_iff (typed : List Char) (number : Int) :
    Types typed number ↔ WritesSigned (Text.trimChars typed) number := by
  constructor
  · rintro ⟨before, numeral, after, rfl, writes, front, back⟩
    rwa [trimChars_framed writes.not_isBlank front back]
  · intro writes
    obtain ⟨before, after, framed, front, back⟩ := exists_frame typed
    exact ⟨before, _, after, framed, writes, front, back⟩

theorem Types.unique {typed : List Char} {number other : Int} (types : Types typed number)
    (also : Types typed other) : number = other := by
  rw [types_iff, ← integer?_eq_some_iff] at types also
  exact Option.some.inj (types.symm.trans also)

end RuleAdvisor.Decimal
