import RuleAdvisor.Number.Text
import RuleAdvisor.Text.Character

/-!
Values of unknown kind, as a setting may hold them, and their text.
-/

namespace RuleAdvisor

inductive Value (α : Type) where
  | absent
  | null
  | boolean (value : Bool)
  | number (value : α)
  | text (value : String)
  | list (items : List (Value α))
  | record

namespace Value

variable {α : Type} [Number α] [NumberText α]

mutual

/-- A list is written as its items between commas, in which what is absent or null is empty. -/
def write : Value α → String
  | absent => "undefined"
  | null => "null"
  | boolean value => if value then "true" else "false"
  | number value => NumberText.plain value
  | text value => value
  | list items => ",".intercalate (writeItems items)
  | record => "[object Object]"

def writeItems : List (Value α) → List String
  | [] => []
  | item :: rest =>
      (match item with
        | absent => ""
        | null => ""
        | item => write item) :: writeItems rest

end

omit [NumberText α]

def isFinite : Value α → Bool
  | number value => Number.isFinite value
  | _ => false

def isInteger : Value α → Bool
  | number value => Number.isInteger value
  | _ => false

def isFilledText : Value α → Bool
  | text value => !Text.isAllBlank value
  | _ => false

end Value
end RuleAdvisor
