import RuleAdvisor.Proofs.Counting.Drawing
import RuleAdvisor.Proofs.Counting.Turns
import RuleAdvisor.Proofs.Number.Whole
import RuleAdvisor.Shipped

/-!
The game as it is shipped, played on doubles. Every total up to 20 can be played from, and every
greater one is refused, however it is rounded. The numbers that are spoken are written as the
natural numbers they are.
-/

namespace RuleAdvisor.Counting.Rules

open IntegerCarrier

def shipped : Rules Float := Shipped.gameRules

theorem stores_shipped : shipped.Stores 21 3 :=
  ⟨stands_natural (by decide), stands_natural (by decide), by constructor <;> decide⟩

theorem dvd_shipped_iff {total : Nat} : (3 + 1 : Int) ∣ 21 - 1 - (total : Int) ↔ 4 ∣ total := by
  omega

theorem ofNat_add_ofNat {total count : Nat} (small : total + count ≤ 21) :
    (Number.ofNat total + Number.ofNat count : Float) = Number.ofNat (total + count) := by
  -- Only of 0 there are two doubles, and the sum of zeros is the right one.
  rcases Nat.eq_zero_or_pos (total + count) with none | positive
  · obtain ⟨rfl, rfl⟩ := Nat.add_eq_zero_iff.mp none
    rfl
  · have sum := value_add (α := Float) (stands_ofNat (by omega : total ≤ 2 ^ 53))
      (stands_ofNat (by omega : count ≤ 2 ^ 53)) (small_of_le (by omega) (by omega))
    exact eq_ofNat_of_stands positive (by omega) sum

theorem reaches_shipped {number : Nat} (small : number ≤ 21) :
    (Number.ofNat number == shipped.target) = true ↔ number = 21 := by
  rw [beq_iff (stands_ofNat (by omega)) stores_shipped.targetIs]
  exact_mod_cast Iff.rfl

theorem plain_ofNat : ∀ number < 22,
    NumberText.plain (Number.ofNat number : Float) = toString number := by
  decide +kernel

theorem spokenText_ofNat {total count : Nat} (positive : 1 ≤ count) (within : total + count ≤ 21) :
    spokenText (Number.ofNat total : Float) (Number.ofNat count)
      = ", ".intercalate ((List.range' (total + 1) count).map toString) := by
  have spoken : spokenAfter (Number.ofNat total : Float) (Number.ofNat count)
      = wholeAfter total count :=
    spokenAfter_whole (stands_ofNat (by omega)) (stands_ofNat (by omega)) positive (by omega)
  rw [spokenText, spoken, listedText, wholeAfter, List.map_map]
  congr 1
  refine List.map_congr_left fun number member => ?_
  obtain ⟨-, below⟩ := List.mem_range'_1.mp member
  exact plain_ofNat number (by omega)

theorem checkTotal_shipped_great {total : Nat} (great : 21 ≤ total) :
    shipped.checkTotal (Number.ofNat total)
      = .error (.total shipped.lastTotal (Number.ofNat total)) := by
  have last : Double.exact shipped.lastTotal = .rat ((20 : Nat) : Rat) :=
    stores_shipped.stands_lastTotal
  -- However many digits the total has, rounding leaves it above 20, and may make it infinite.
  have above : shipped.lastTotal < Number.ofNat total := by
    rw [Double.lt_iff_exact, last]
    exact Double.lt_exact_ofNat (by decide) (by omega)
  exact if_pos (.inr (.inr above))

/-- From a total up to 20 a count is chosen, unless a value is needed that gives none. -/
theorem exists_choice {total : Nat} (short : total ≤ 20) {value : Float}
    (usable : (0 ≤ value ∧ value < 1) ∨ ¬ 4 ∣ total) :
    ∃ count, 0 < count ∧ count ≤ 3 ∧ total + count ≤ 21 ∧ (¬ 4 ∣ total → 4 ∣ total + count)
      ∧ (shipped.choose (Number.ofNat total) (.constant value)).1
          = .ok (Number.ofNat count) := by
  have whole : Stands (Number.ofNat total : Float) total := stands_ofNat (by omega)
  by_cases safe : 4 ∣ total
  · have within := usable.resolve_right (not_not_intro safe)
    obtain ⟨said, counted, least, most, fits, -⟩ :=
      stores_shipped.exists_drawn whole (by omega) within
    refine ⟨said, by omega, by omega, by omega, fun notSafe => absurd safe notSafe, ?_⟩
    rw [stores_shipped.choose_of_safe whole (by omega) (dvd_shipped_iff.mpr safe)]
    exact counted
  · obtain ⟨said, chosen, least, most, stillShort, reached⟩ :=
      stores_shipped.choose_of_unsafe whole (by omega) (mt dvd_shipped_iff.mp safe)
    exact ⟨said, by omega, by omega, by omega, fun _ => dvd_shipped_iff.mp reached,
      congrArg Prod.fst (chosen _)⟩

theorem exists_refusal {total : Nat} {value : Float}
    (unusable : ¬ (total ≤ 20 ∧ ((0 ≤ value ∧ value < 1) ∨ ¬ 4 ∣ total))) :
    ∃ refusal, (shipped.choose (Number.ofNat total) (.constant value)).1 = .error refusal := by
  by_cases short : total ≤ 20
  · obtain ⟨outside, safe⟩ := not_or.mp fun usable => unusable ⟨short, usable⟩
    refine ⟨.random value, ?_⟩
    rw [stores_shipped.choose_of_safe (stands_ofNat (by omega)) (by omega)
      (dvd_shipped_iff.mpr (not_not.mp safe)), countFor_refused_iff]
    exact ⟨rfl, outside⟩
  · have refused := choose_of_unplayable stores_shipped.check
      (checkTotal_shipped_great (Nat.lt_of_not_le short)) (.constant value)
    exact ⟨_, congrArg Prod.fst refused⟩

end RuleAdvisor.Counting.Rules
