import Mathlib.Data.List.Basic
import RuleAdvisor.Text.Unstyled

/-!
Text painted in styles, and left without them. Styles are put in only where they meet no control
sequence that has begun: at the ends of the text, around its line ends, and behind a sequence. So
leaving out all styles gives the same with the ones put in as without, even where a sequence in the
text breaks off.
-/

namespace RuleAdvisor.Text

def isInner (c : Char) : Bool := c == '[' || c == 'm' || (c.isDigit || c == ';')

/-- The text does not carry on a control sequence that breaks off in front of it. -/
def StartsAnew (text : List Char) : Prop := ∀ c ∈ text.head?, isInner c = false

theorem afterSequence?_of_unopened {c : Char} {rest : List Char}
    (unopened : ¬ (c = '\x1b' ∧ rest.head? = some '[')) : afterSequence? (c :: rest) = none := by
  unfold afterSequence?
  split
  · next opened =>
      cases opened
      exact absurd ⟨rfl, rfl⟩ unopened
  · rfl

theorem unstyled_of_sequence {text rest : List Char} (found : afterSequence? text = some rest) :
    unstyled text = unstyled rest := by
  rw [unstyled]
  split
  · next other otherFound =>
      rw [found] at otherFound
      cases otherFound
      rfl
  · next missing =>
      rw [found] at missing
      cases missing

theorem unstyled_cons {c : Char} {rest : List Char}
    (missing : afterSequence? (c :: rest) = none) :
    unstyled (c :: rest) = c :: unstyled rest := by
  rw [unstyled]
  split
  · next found =>
      rw [missing] at found
      cases found
  · rfl

section Apart

variable {text more : List Char} (anew : StartsAnew more)

include anew

theorem dropWhile_append_of_anew :
    (text ++ more).dropWhile (fun c => c.isDigit || c == ';')
      = text.dropWhile (fun c => c.isDigit || c == ';') ++ more := by
  have kept : more.dropWhile (fun c => c.isDigit || c == ';') = more := by
    cases more with
    | nil => rfl
    | cons c rest =>
        have first : isInner c = false := anew c rfl
        rw [isInner, Bool.or_eq_false_iff] at first
        rw [List.dropWhile_cons, first.2]
        rfl
  rw [List.dropWhile_append, kept]
  split
  · next dropped => rw [List.isEmpty_iff.mp dropped, List.nil_append]
  · rfl

/-- What stands behind a text completes no control sequence in it and breaks none. -/
theorem afterSequence?_append (c : Char) (rest : List Char) :
    afterSequence? (c :: rest ++ more) = (afterSequence? (c :: rest)).map (· ++ more) := by
  cases rest with
  | nil =>
      cases more with
      | nil => simp
      | cons d others =>
          have bracket : d ≠ '[' := by
            rintro rfl
            exact absurd (anew '[' rfl) (by decide)
          rw [afterSequence?_of_unopened fun opened => absurd opened.2 (by simp)]
          exact afterSequence?_of_unopened fun opened => bracket (Option.some.inj opened.2)
  | cons d inner =>
      by_cases opened : c = '\x1b' ∧ d = '['
      · obtain ⟨rfl, rfl⟩ := opened
        simp only [List.cons_append, afterSequence?, dropWhile_append_of_anew anew]
        cases inner.dropWhile fun c => c.isDigit || c == ';' with
        | nil =>
            cases more with
            | nil => rfl
            | cons e others =>
                -- What is put behind does not begin with the letter that would close the sequence.
                have ending : e ≠ 'm' := by
                  rintro rfl
                  exact absurd (anew 'm' rfl) (by decide)
                simp [ending]
        | cons e behind =>
            by_cases ending : e = 'm'
            · subst ending
              rfl
            · simp [ending]
      · have unopened (tail : List Char) : afterSequence? (c :: d :: tail) = none :=
          afterSequence?_of_unopened fun both => opened ⟨both.1, Option.some.inj both.2⟩
        rw [unopened]
        exact unopened (inner ++ more)

theorem unstyled_append (text : List Char) :
    unstyled (text ++ more) = unstyled text ++ unstyled more := by
  fun_induction unstyled text with
  | case1 text rest found _ ih =>
      have whole : afterSequence? (text ++ more) = some (rest ++ more) := by
        cases text with
        | nil => cases found
        | cons c behind => rw [afterSequence?_append anew, found, Option.map_some]
      rw [unstyled_of_sequence whole, ih]
  | case2 missing => rfl
  | case3 c rest missing ih =>
      have stillMissing : afterSequence? (c :: (rest ++ more)) = none := by
        rw [← List.cons_append, afterSequence?_append anew, missing, Option.map_none]
      rw [List.cons_append, unstyled_cons stillMissing, ih, List.cons_append]

end Apart

def sequences (codes : List Nat) : List Char := codes.flatMap Style.sequence

theorem unstyled_sequences_append (codes : List Nat) (text : List Char) :
    unstyled (sequences codes ++ text) = unstyled text := by
  induction codes with
  | nil => rfl
  | cons code rest ih =>
      rw [sequences, List.flatMap_cons, List.append_assoc, unstyled_sequence_append]
      exact ih

theorem startsAnew_sequence_append (code : Nat) (text : List Char) :
    StartsAnew (Style.sequence code ++ text) := by
  rintro c ⟨⟩
  decide

theorem startsAnew_sequences_append (codes : List Nat) {text : List Char}
    (anew : StartsAnew text) : StartsAnew (sequences codes ++ text) := by
  cases codes with
  | nil => exact anew
  | cons code rest =>
      rw [sequences, List.flatMap_cons, List.append_assoc]
      exact startsAnew_sequence_append code _

/-- Control sequences can be put in wherever what follows starts anew. -/
theorem unstyled_insert (before : List Char) (codes : List Nat) {text : List Char}
    (anew : StartsAnew text) :
    unstyled (before ++ (sequences codes ++ text)) = unstyled (before ++ text) := by
  rw [unstyled_append (startsAnew_sequences_append codes anew), unstyled_sequences_append,
    unstyled_append anew]

theorem unstyled_cons_outer {c : Char} (notEscape : c ≠ '\x1b') (rest : List Char) :
    unstyled (c :: rest) = c :: unstyled rest :=
  unstyled_cons (afterSequence?_of_unopened fun opened => notEscape opened.1)

theorem startsAnew_newline (rest : List Char) : StartsAnew ('\n' :: rest) := by
  rintro c ⟨⟩
  decide

theorem startsAnew_return (rest : List Char) : StartsAnew ('\r' :: rest) := by
  rintro c ⟨⟩
  decide

theorem unstyled_newline (before rest : List Char) :
    unstyled (before ++ '\n' :: rest) = unstyled before ++ '\n' :: unstyled rest := by
  rw [unstyled_append (startsAnew_newline rest), unstyled_cons_outer (by decide)]

theorem unstyled_return (before rest : List Char) :
    unstyled (before ++ '\r' :: '\n' :: rest)
      = unstyled before ++ '\r' :: '\n' :: unstyled rest := by
  rw [unstyled_append (startsAnew_return _), unstyled_cons_outer (by decide),
    unstyled_cons_outer (by decide)]

/-- The induction is on the text, with any characters in front of it, as a sequence that breaks off
in the text may have begun there. -/
theorem unstyled_interruptLines (closing opening : List Nat) (before text : List Char) :
    unstyled (before ++ Style.interruptLines (sequences closing) (sequences opening) text)
      = unstyled (before ++ text) := by
  fun_induction Style.interruptLines (sequences closing) (sequences opening) text
      generalizing before with
  | case1 rest ih =>
      simp only [List.append_assoc, List.cons_append]
      rw [unstyled_insert _ _ (startsAnew_return _), unstyled_return, unstyled_return,
        unstyled_sequences_append]
      exact congrArg (unstyled before ++ '\r' :: '\n' :: ·) (ih [])
  | case2 rest ih =>
      simp only [List.append_assoc, List.cons_append]
      rw [unstyled_insert _ _ (startsAnew_newline _), unstyled_newline, unstyled_newline,
        unstyled_sequences_append]
      exact congrArg (unstyled before ++ '\n' :: ·) (ih [])
  | case3 c rest _ _ ih =>
      have moved := ih (before ++ [c])
      rwa [List.append_assoc, List.append_assoc] at moved
  | case4 => rfl

theorem unstyled_followWith (mark addition : Nat) (before text : List Char) :
    unstyled (before ++ Style.followWith (Style.sequence mark) (Style.sequence addition) text)
      = unstyled (before ++ text) := by
  fun_induction Style.followWith (Style.sequence mark) (Style.sequence addition) text
      generalizing before with
  | case1 => rfl
  | case2 c rest found ih =>
      obtain ⟨behind, whole⟩ := List.isPrefixOf_iff_prefix.mp found
      have dropped : rest.drop ((Style.sequence mark).length - 1) = behind := by
        have fromFirst := congrArg (List.drop (Style.sequence mark).length) whole
        rw [List.drop_left] at fromFirst
        exact fromFirst.symm
      rw [dropped] at ih ⊢
      rw [← whole, List.append_assoc (Style.sequence mark),
        unstyled_append (startsAnew_sequence_append mark _),
        unstyled_append (startsAnew_sequence_append mark _), unstyled_sequence_append,
        unstyled_sequence_append, unstyled_sequence_append]
      exact congrArg (unstyled before ++ ·) (ih [])
  | case3 c rest _ ih =>
      have moved := ih (before ++ [c])
      rwa [List.append_assoc, List.append_assoc] at moved

theorem unstyled_reopened (styles : List Style) (text : List Char) :
    unstyled (styles.foldl (fun text style => Style.followWith (Style.sequence style.closing)
      (Style.sequence style.opening) text) text) = unstyled text := by
  induction styles generalizing text with
  | nil => rfl
  | cons style rest ih =>
      rw [List.foldl_cons, ih]
      exact unstyled_followWith style.closing style.opening [] text

theorem unstyled_paintChars (styles : List Style) (text : List Char) :
    unstyled (Style.paintChars styles text) = unstyled text := by
  have codes (f : Style → Nat) (others : List Style) :
      (others.flatMap fun style => Style.sequence (f style)) = sequences (others.map f) :=
    (List.flatMap_map ..).symm
  simp only [Style.paintChars, codes]
  split
  · next empty => rw [List.isEmpty_iff.mp empty]
  · generalize styles.map Style.opening = opening, styles.reverse.map Style.closing = closing
    have nothing : StartsAnew [] := fun c member => nomatch member
    have closed (inner : List Char) : unstyled (inner ++ sequences closing) = unstyled inner := by
      have atEnd := unstyled_insert inner closing nothing
      rwa [List.append_nil, List.append_nil] at atEnd
    rw [closed, unstyled_sequences_append, ← unstyled_reopened styles.reverse text]
    exact unstyled_interruptLines closing opening [] _

end RuleAdvisor.Text
