import RuleAdvisor.Number.Double
import RuleAdvisor.Number.Entry
import RuleAdvisor.Decimal.Layout

/-!
Numbers as text: plainly, with the fewest digits that read back, or with fixed places.
-/

namespace RuleAdvisor

class NumberText (α : Type) where
  plain (x : α) : String
  fixed (places : Nat) (x : α) : String

namespace Double

def plain (x : Float) : String :=
  match Binary.ofFloat? x with
  | some b =>
      if b.mantissa = 0 then "0"
      else (if b.negative then "-" else "") ++ Decimal.Layout.plain.write (Decimal.shortest b)
  | none => if x.isNaN then "NaN" else if x < 0.0 then "-Infinity" else "Infinity"

/-- A value below zero keeps its sign even when it rounds to zero. From `1e21` on the fixed form
is the plain one. -/
def fixed (places : Nat) (x : Float) : String :=
  match Binary.ofFloat? x with
  | some b =>
      if x.abs < 1e21 then (if x < 0.0 then "-" else "") ++ Decimal.fixed places b else plain x
  | none => plain x

instance : NumberText Float := ⟨plain, fixed⟩

end Double

namespace Entry

instance {α : Type} [NumberText α] : NumberText (Entry α) where
  plain
    | given x => NumberText.plain x
    | missing => "undefined"
  fixed places
    | given x => NumberText.fixed places x
    | missing => "undefined"

end Entry

def listedText {α : Type} [Number α] [NumberText α] (xs : List α) : String :=
  ", ".intercalate (xs.map fun x => if Number.isGiven x then NumberText.plain x else "")

end RuleAdvisor
