import RuleAdvisor.Text.Style

/-!
Text without its styles: every control sequence that switches a style on or off is left out.
-/

namespace RuleAdvisor.Text

/-- The text behind a style's control sequence, if there is one in front: the escape character, a
bracket, numbers with semicolons between them, and an `m`. -/
def afterSequence? : List Char → Option (List Char)
  | '\x1b' :: '[' :: rest =>
      match rest.dropWhile fun c => c.isDigit || c == ';' with
      | 'm' :: rest => some rest
      | _ => none
  | _ => none

theorem length_afterSequence {text rest : List Char} (found : afterSequence? text = some rest) :
    rest.length < text.length := by
  unfold afterSequence? at found
  split at found
  · next inner =>
      split at found
      · next behind tail =>
          cases found
          have dropped : (inner.dropWhile fun c => c.isDigit || c == ';').length ≤ inner.length :=
            (List.dropWhile_suffix _).length_le
          rw [tail] at dropped
          simp at dropped ⊢
          omega
      · cases found
  · cases found

def unstyled (text : List Char) : List Char :=
  match found : afterSequence? text with
  | some rest =>
      have _shorter := length_afterSequence found
      unstyled rest
  | none =>
      match text with
      | [] => []
      | c :: rest => c :: unstyled rest
termination_by text.length

theorem afterSequence?_sequence (code : Nat) (text : List Char) :
    afterSequence? (Style.sequence code ++ text) = some text := by
  have digits : ∀ c ∈ Nat.toDigits 10 code, (c.isDigit || c == ';') = true := fun c member => by
    simp [Nat.isDigit_of_mem_toDigits (by decide) (by decide) member]
  simp only [Style.sequence, List.cons_append, List.append_assoc, afterSequence?]
  rw [List.dropWhile_append_of_pos digits]
  rfl

theorem unstyled_sequence_append (code : Nat) (text : List Char) :
    unstyled (Style.sequence code ++ text) = unstyled text := by
  rw [unstyled]
  split
  · next rest found =>
      rw [afterSequence?_sequence] at found
      cases found
      rfl
  · next missing =>
      rw [afterSequence?_sequence] at missing
      cases missing

end RuleAdvisor.Text
