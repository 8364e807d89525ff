import RuleAdvisor.Issue

/-!
Checks of single settings. Each returns the issues it finds, which are none or one.
-/

namespace RuleAdvisor.Setting

variable {α : Type} [Number α]

def checkFilled (field : String) (value : Value α) : List (Issue α) :=
  if value.isFilledText then [] else [.error field .blankText]

def checkFinite (field : String) (value : Value α) : List (Issue α) :=
  if value.isFinite then [] else [.error field (.notFinite value)]

/-- The limits of a setting: hard ones and, if both are stated, recommended ones. -/
structure Limits (α : Type) where
  least : α
  greatest : α
  recommendedLeast : Option α := none
  recommendedGreatest : Option α := none

def checkRecommended (field : String) (limits : Limits α) (value : α) : List (Issue α) :=
  match limits.recommendedLeast, limits.recommendedGreatest with
  | some least, some greatest =>
      if value < least ∨ greatest < value then
        [.warning field (.notRecommended value least greatest)]
      else []
  | _, _ => []

/-- A missing setting passes; one that is not finite is out of every range. -/
def checkRange (field : String) (limits : Limits α) (value : α) : List (Issue α) :=
  if !Number.isGiven value then []
  else if !Number.isFinite value ∨ value < limits.least ∨ limits.greatest < value then
    [.error field (.outOfRange value limits.least limits.greatest)]
  else checkRecommended field limits value

def checkIntegerRange (field : String) (limits : Limits α) (value : α) : List (Issue α) :=
  if !Number.isGiven value then []
  else if !Number.isInteger value then [.error field (.notInteger value)]
  else checkRange field limits value

end RuleAdvisor.Setting
