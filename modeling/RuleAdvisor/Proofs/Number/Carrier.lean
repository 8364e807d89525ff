import RuleAdvisor.Number.Entry
import RuleAdvisor.Proofs.Number.Rational

/-!
Carriers in which the finite values are the rationals. A check that compares finite values only
decides the same on each of them, whatever else the carrier holds.
-/

namespace RuleAdvisor

/-- The rationals inside a carrier, with their order and their differences. -/
class RationalCarrier (α : Type) [Number α] where
  ofRat : Rat → α
  isFinite_iff (x : α) : Number.isFinite x = true ↔ ∃ q, x = ofRat q
  zero_eq : (0 : α) = ofRat 0
  ofRat_lt (p q : Rat) : ofRat p < ofRat q ↔ p < q
  ofRat_le (p q : Rat) : ofRat p ≤ ofRat q ↔ p ≤ q
  ofRat_beq (p q : Rat) : (ofRat p == ofRat q) = decide (p = q)
  ofRat_sub (p q : Rat) : ofRat p - ofRat q = ofRat (p - q)

instance : RationalCarrier Exact where
  ofRat := .rat
  isFinite_iff := Exact.isFinite_iff
  zero_eq := Exact.literal_eq 0
  ofRat_lt := Exact.rat_lt
  ofRat_le := Exact.rat_le
  ofRat_beq := Exact.rat_beq
  ofRat_sub := Exact.rat_sub

instance : RationalCarrier (Entry Exact) where
  ofRat q := .given (.rat q)
  isFinite_iff x := by
    cases x with
    | missing => simp [Number.isFinite]
    | given x =>
        simp only [Entry.given.injEq]
        exact Exact.isFinite_iff x
  zero_eq := congrArg Entry.given (Exact.literal_eq 0)
  ofRat_lt p q := (Entry.given_lt _ _).trans (Exact.rat_lt p q)
  ofRat_le p q := (Entry.given_le _ _).trans (Exact.rat_le p q)
  ofRat_beq := Exact.rat_beq
  ofRat_sub p q := congrArg Entry.given (Exact.rat_sub p q)

namespace RationalCarrier

variable {α : Type} [Number α] [RationalCarrier α]

attribute [simp] ofRat_lt ofRat_le ofRat_beq ofRat_sub

@[simp] theorem isFinite_ofRat (q : Rat) : Number.isFinite (ofRat q : α) = true :=
  (isFinite_iff _).mpr ⟨q, rfl⟩

theorem exists_map_ofRat {xs : List α} (finite : ∀ x ∈ xs, Number.isFinite x = true) :
    ∃ qs : List Rat, xs = qs.map ofRat := by
  induction xs with
  | nil => exact ⟨[], rfl⟩
  | cons x rest ih =>
      obtain ⟨q, rfl⟩ := (isFinite_iff x).mp (finite x List.mem_cons_self)
      obtain ⟨qs, rfl⟩ := ih fun y member => finite y (List.mem_cons_of_mem _ member)
      exact ⟨q :: qs, rfl⟩

end RationalCarrier

theorem Exact.exists_map_rat {xs : List Exact} (rational : ∀ x ∈ xs, ∃ q, x = rat q) :
    ∃ qs : List Rat, xs = qs.map rat :=
  RationalCarrier.exists_map_ofRat fun x member => (isFinite_iff x).mpr (rational x member)

end RuleAdvisor
