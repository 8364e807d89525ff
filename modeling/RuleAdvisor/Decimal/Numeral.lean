import RuleAdvisor.Number
import RuleAdvisor.Text.Character

/-!
Numerals as they are typed: whole numbers in decimal digits, and numbers with a fraction and an
exponent or with a radix mark. White space around a numeral is not part of it.
-/

namespace RuleAdvisor.Decimal

def digitValue (c : Char) : Nat :=
  if c.isDigit then c.toNat - '0'.toNat
  else c.toLower.toNat - 'a'.toNat + 10

def isDigitIn (radix : Nat) (c : Char) : Bool :=
  (c.isDigit || ('a' ≤ c.toLower && c.toLower ≤ 'f')) && digitValue c < radix

def valueOf (radix : Nat) (digits : List Char) : Nat :=
  digits.foldl (fun value digit => radix * value + digitValue digit) 0

def natural? (radix : Nat) (text : List Char) : Option Nat :=
  if !text.isEmpty && text.all (isDigitIn radix) then some (valueOf radix text) else none

def splitSign : List Char → Bool × List Char
  | '+' :: rest => (false, rest)
  | '-' :: rest => (true, rest)
  | text => (false, text)

def integer? (text : List Char) : Option Int :=
  let (negative, digits) := splitSign text
  (natural? 10 digits).map fun value => if negative then -(value : Int) else value

/-- The value `± digits · 10 ^ exponent`. -/
structure Numeral where
  negative : Bool
  digits : Nat
  exponent : Int
  deriving DecidableEq

namespace Numeral

/-- Digits with at most one point among them and an optional exponent; a digit stands before or
behind the point. -/
def unsigned? (text : List Char) : Option Numeral :=
  let whole := text.takeWhile Char.isDigit
  let afterWhole := text.dropWhile Char.isDigit
  let (fraction, afterFraction) :=
    match afterWhole with
    | '.' :: rest => (rest.takeWhile Char.isDigit, rest.dropWhile Char.isDigit)
    | rest => ([], rest)
  if whole.isEmpty && fraction.isEmpty then none
  else
    let digits := valueOf 10 (whole ++ fraction)
    let exponent? : Option Int :=
      match afterFraction with
      | [] => some 0
      | mark :: rest => if mark.toLower = 'e' then integer? rest else none
    exponent?.map fun exponent => ⟨false, digits, exponent - (fraction.length : Int)⟩

def withRadix? : List Char → Option Numeral
  | '0' :: mark :: rest =>
      let radix? :=
        match mark.toLower with
        | 'x' => some 16
        | 'o' => some 8
        | 'b' => some 2
        | _ => none
      radix?.bind fun radix => (natural? radix rest).map fun value => ⟨false, value, 0⟩
  | _ => none

def ofChars? (text : List Char) : Option Numeral :=
  match withRadix? text with
  | some numeral => some numeral
  | none =>
      let (negative, rest) := splitSign text
      (unsigned? rest).map fun numeral => { numeral with negative := negative }

/-- A negative zero stays one. -/
def value {α : Type} [Number α] (numeral : Numeral) : α :=
  let size : α :=
    Number.scientific numeral.digits (numeral.exponent < 0) numeral.exponent.natAbs
  if numeral.negative then -size else size

end Numeral
end RuleAdvisor.Decimal
