import Mathlib.Data.List.Basic
import RuleAdvisor.Setting
import RuleAdvisor.Proofs.Number.Rational

/-!
Issues that leave a subject usable. Parts are usable by themselves, so a subject checked part by
part is usable exactly if each part is, and a setting exactly if it keeps its limits.
-/

namespace RuleAdvisor

variable {α : Type}

@[simp] theorem isUsable_nil : isUsable ([] : List (Issue α)) = true := rfl

@[simp] theorem isUsable_error (field : String) (fault : Fault α) :
    isUsable [.error field fault] = false := rfl

@[simp] theorem isUsable_warning (field : String) (fault : Fault α) :
    isUsable [.warning field fault] = true := rfl

@[simp] theorem isUsable_append (first second : List (Issue α)) :
    isUsable (first ++ second) = (isUsable first && isUsable second) := by
  rw [Bool.eq_iff_iff, Bool.and_eq_true]
  simp only [isUsable, errorsOf, List.filter_append, List.isEmpty_iff, List.append_eq_nil_iff]

theorem isUsable_iff (issues : List (Issue α)) :
    isUsable issues = true ↔ ∀ issue ∈ issues, issue.isError = false := by
  simp [isUsable, errorsOf]

theorem isUsable_iff_warnings (issues : List (Issue α)) :
    isUsable issues = true ↔ ∀ issue ∈ issues, issue.severity = .warning := by
  rw [isUsable_iff]
  apply forall_congr'
  intro issue
  apply imp_congr_right
  intro _
  rw [Issue.isError]
  cases issue.severity <;> simp

theorem isUsable_flatMap {β : Type} (xs : List β) (issues : β → List (Issue α)) :
    isUsable (xs.flatMap issues) = true ↔ ∀ x ∈ xs, isUsable (issues x) = true := by
  simp only [isUsable_iff, List.mem_flatMap]
  constructor
  · intro all x member issue found
    exact all issue ⟨x, member, found⟩
  · rintro all issue ⟨x, member, found⟩
    exact all x member issue found

theorem isUsable_error_if (condition : Prop) [Decidable condition] (field : String)
    (fault : Fault α) :
    isUsable (if condition then [.error field fault] else []) = true ↔ ¬ condition := by
  split <;> simp [*]

theorem isUsable_error_unless (condition : Prop) [Decidable condition] (field : String)
    (fault : Fault α) :
    isUsable (if condition then [] else [.error field fault]) = true ↔ condition := by
  split <;> simp [*]

theorem forall_getElem?_iff {β : Type} (xs : List β) (property : β → Prop) :
    (∀ (index : Nat) (x : β), xs[index]? = some x → property x) ↔ ∀ x ∈ xs, property x := by
  constructor
  · intro all x member
    obtain ⟨index, found⟩ := List.getElem?_of_mem member
    exact all index x found
  · intro all index x found
    exact all x (List.mem_of_getElem? found)

theorem isUsable_flatMap_zipIdx {β : Type} (xs : List β) (issues : β × Nat → List (Issue α)) :
    isUsable (xs.zipIdx.flatMap issues) = true
      ↔ ∀ (index : Nat) (x : β), xs[index]? = some x → isUsable (issues (x, index)) = true := by
  simp only [isUsable_flatMap, Prod.forall, List.mk_mem_zipIdx_iff_getElem?]
  exact forall_comm

variable [Number α]

theorem checkFinite_eq (field : String) (x : α) :
    Setting.checkFinite field (.number x)
      = if Number.isFinite x then [] else [.error field (.notFinite (.number x))] := rfl

theorem isUsable_checkFinite (field : String) (x : α) :
    isUsable (Setting.checkFinite field (.number x)) = true ↔ Number.isFinite x = true := by
  rw [checkFinite_eq]
  split <;> simp [*]

/-- A setting that is given has to be an integer within its limits. -/
theorem isUsable_checkIntegerRange (field : String) (least greatest value : α) :
    isUsable (Setting.checkIntegerRange field ⟨least, greatest, none, none⟩ value) = true
      ↔ (Number.isGiven value = true → Number.isInteger value = true
        ∧ ¬ value < least ∧ ¬ greatest < value) := by
  by_cases given : Number.isGiven value = true
  · by_cases whole : Number.isInteger value = true
    · have finite : Number.isFinite value = true := (Bool.and_eq_true_iff.mp whole).1
      simp [Setting.checkIntegerRange, Setting.checkRange, Setting.checkRecommended, given, whole,
        finite, isUsable_error_if]
    · simp [Setting.checkIntegerRange, given, whole]
  · simp [Setting.checkIntegerRange, given]

end RuleAdvisor
