import RuleAdvisor.Decimal.Shortest

/-!
How a decimal is laid out as text: which values are written positionally, and how an exponent is
written for the others. With a fixed number of places after the point the exact binary value is
rounded once, and a half goes away from zero.
-/

namespace RuleAdvisor.Decimal

structure Layout where
  /-- The most digits that are written before the point. -/
  wholeLimit : Int
  /-- The most zeros that are written between the point and the first digit. -/
  zeroLimit : Int
  exponentMark : String
  /-- Whether an exponent that is not negative carries a plus sign. -/
  plusSign : Bool

/-- Up to 21 digits before the point and 5 zeros after it; beyond, `1e+21` and `1e-7`. -/
def Layout.plain : Layout := ⟨21, 5, "e", true⟩

def zeros (count : Nat) : String := String.ofList (List.replicate count '0')

namespace Layout

def exponentText (layout : Layout) (exponent : Int) : String :=
  let sign := if exponent < 0 then "-" else if layout.plusSign then "+" else ""
  layout.exponentMark ++ sign ++ toString exponent.natAbs

def write (layout : Layout) (x : Scientific) : String :=
  let digits := Nat.toDigits 10 x.digits
  let point := x.exponent + digits.length
  if 0 < point ∧ point ≤ layout.wholeLimit then
    if 0 ≤ x.exponent then String.ofList digits ++ zeros x.exponent.toNat
    else String.ofList (digits.take point.toNat) ++ "."
      ++ String.ofList (digits.drop point.toNat)
  else if point ≤ 0 ∧ -point ≤ layout.zeroLimit then
    "0." ++ zeros (-point).toNat ++ String.ofList digits
  else
    match digits with
    | [digit] => String.singleton digit ++ layout.exponentText (point - 1)
    | first :: rest =>
        String.singleton first ++ "." ++ String.ofList rest ++ layout.exponentText (point - 1)
    | [] => ""

end Layout

/-- The nearest natural number to `num / den`; halves go up. -/
def roundHalfUp (num den : Nat) : Nat := (2 * num + den) / (2 * den)

def withPoint (units places : Nat) : String :=
  let text := toString (units / powerOfTen places)
  if places = 0 then text
  else
    let fraction := toString (units % powerOfTen places)
    text ++ "." ++ zeros (places - fraction.length) ++ fraction

def fixed (places : Nat) (x : Binary) : String :=
  withPoint (roundHalfUp (x.ratio.1 * powerOfTen places) x.ratio.2) places

end RuleAdvisor.Decimal
