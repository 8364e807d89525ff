import Mathlib.Data.List.Nodup
import RuleAdvisor.Fuzzy.Validation
import RuleAdvisor.Fuzzy.WellFormed
import RuleAdvisor.Proofs.Checks
import RuleAdvisor.Proofs.Number.Order
import RuleAdvisor.Shipped

/-!
Validation accepts the well-formed rule bases. Each part of a rule base is free of errors exactly
if it is well-formed, whatever the rest of the rule base is like; warnings have no say in it.
-/

namespace RuleAdvisor

variable {α : Type} [Number α]

omit [Number α] in
theorem isUsable_checkFilled (field text : String) :
    isUsable (Setting.checkFilled (α := α) field (.text text)) = true
      ↔ Fuzzy.IsFilled text := by
  unfold Setting.checkFilled
  split
  · next filled =>
      simpa [Value.isFilledText, Text.isAllBlank, Fuzzy.IsFilled] using filled
  · next blank =>
      simpa [Value.isFilledText, Text.isAllBlank, Fuzzy.IsFilled] using blank

theorem nodup_iff_not_mem_take {β : Type} (xs : List β) :
    xs.Nodup ↔ ∀ (index : Nat) (x : β), xs[index]? = some x → x ∉ xs.take index := by
  rw [List.nodup_iff_getElem?_ne_getElem?]
  constructor
  · intro distinct index x found repeated
    obtain ⟨earlier, before, same⟩ := List.mem_take_iff_getElem.mp repeated
    obtain ⟨beforeIndex, inside⟩ := lt_min_iff.mp before
    refine distinct earlier index beforeIndex (List.getElem?_eq_some_iff.mp found).1 ?_
    rw [found, List.getElem?_eq_getElem inside, same]
  · intro all earlier later before inside same
    rw [List.getElem?_eq_getElem inside] at same
    refine all later _ (List.getElem?_eq_getElem inside) (List.mem_take_iff_getElem.mpr ?_)
    have found := List.getElem?_eq_some_iff.mp same
    exact ⟨earlier, lt_min before found.1, found.2⟩

theorem nodup_map_iff_not_mem_take {β γ : Type} (f : β → γ) (xs : List β) :
    (xs.map f).Nodup ↔ ∀ (index : Nat) (x : β), xs[index]? = some x →
      f x ∉ (xs.take index).map f := by
  rw [nodup_iff_not_mem_take]
  constructor
  · intro all index x found
    rw [List.map_take]
    exact all index (f x) (by rw [List.getElem?_map, found]; rfl)
  · intro all index y found
    rw [List.getElem?_map, Option.map_eq_some_iff] at found
    obtain ⟨x, found, rfl⟩ := found
    rw [← List.map_take]
    exact all index x found

theorem mem_of_find?_reverse {β : Type} {key : β → String} {xs : List β} {name : String} {x : β}
    (found : xs.reverse.find? (fun y => key y == name) = some x) : x ∈ xs ∧ key x = name :=
  ⟨List.mem_reverse.mp (List.mem_of_find?_eq_some found), by simpa using List.find?_some found⟩

theorem find?_reverse_eq_some_iff {β : Type} {key : β → String} {xs : List β}
    (distinct : (xs.map key).Nodup) (name : String) (x : β) :
    xs.reverse.find? (fun y => key y == name) = some x ↔ x ∈ xs ∧ key x = name := by
  constructor
  · exact mem_of_find?_reverse
  · rintro ⟨member, named⟩
    cases found : xs.reverse.find? (fun y => key y == name) with
    | none =>
        have nowhere := List.find?_eq_none.mp found x (List.mem_reverse.mpr member)
        exact absurd (beq_iff_eq.mpr named) nowhere
    | some other =>
        obtain ⟨otherMember, otherNamed⟩ := mem_of_find?_reverse found
        have same := List.inj_on_of_nodup_map distinct otherMember member
          (otherNamed.trans named.symm)
        rw [same]

namespace Fuzzy

open FiniteOrder

section Shapes

variable [FiniteOrder α]

theorem hasDescent_iff {points : List α}
    (finite : ∀ point ∈ points, Number.isFinite point = true) :
    hasDescent points = false ↔ points.Pairwise (· ≤ ·) := by
  induction points with
  | nil => simp [hasDescent]
  | cons first rest ih =>
      cases rest with
      | nil => simp [hasDescent]
      | cons second later =>
          have restFinite : ∀ point ∈ second :: later, Number.isFinite point = true :=
            fun point member => finite point (List.mem_cons_of_mem _ member)
          have firstFinite := finite first List.mem_cons_self
          have secondFinite := restFinite second List.mem_cons_self
          rw [hasDescent, Bool.or_eq_false_iff, decide_eq_false_iff_not, ih restFinite,
            not_lt_iff secondFinite firstFinite, List.pairwise_cons (l := second :: later)]
          apply and_congr_left
          intro ascending
          constructor
          -- What is at most the second point is at most all those after it.
          · intro ordered point member
            rcases List.mem_cons.mp member with rfl | inLater
            · exact ordered
            · exact FiniteOrder.le_trans firstFinite secondFinite (restFinite point member)
                ordered ((List.pairwise_cons.mp ascending).1 point inLater)
          · intro below
            exact below second List.mem_cons_self

theorem le_of_ascending {points : List α} {first last : α}
    (isFirst : points.head? = some first) (isLast : points.getLast? = some last)
    (finite : Number.isFinite first = true) (ascending : points.Pairwise (· ≤ ·)) :
    first ≤ last := by
  cases points with
  | nil => cases isFirst
  | cons head rest =>
      cases isFirst
      rcases List.mem_cons.mp (List.mem_of_getLast? isLast) with rfl | later
      · exact FiniteOrder.le_refl finite
      · exact (List.pairwise_cons.mp ascending).1 last later

theorem isUsable_pointIssues (domain : Domain α) (field : String) {points : List α}
    {first last : α} (isFirst : points.head? = some first) (isLast : points.getLast? = some last)
    (finite : ∀ point ∈ points, Number.isFinite point = true) :
    isUsable (domain.pointIssues field points) = true
      ↔ points.Pairwise (· ≤ ·) ∧ first < last := by
  have firstFinite := finite first (List.mem_of_head? isFirst)
  have lastFinite := finite last (List.mem_of_getLast? isLast)
  have firstIs : points.headD Number.absent = first := by
    rw [List.headD_eq_head?_getD, isFirst, Option.getD_some]
  have lastIs : points.getLastD Number.absent = last := by
    rw [List.getLastD_eq_getLast?, isLast, Option.getD_some]
  unfold Domain.pointIssues
  rw [firstIs, lastIs, ← hasDescent_iff finite]
  by_cases descends : hasDescent points = true
  · simp [descends]
  · have ascends := Bool.eq_false_iff.mpr descends
    have ordered := le_of_ascending isFirst isLast firstFinite ((hasDescent_iff finite).mp ascends)
    -- In ascending order the ends are equal exactly if the first is not below the last.
    have equal : (first == last) = true ↔ ¬ first < last := by
      rw [beq_iff firstFinite lastFinite, not_lt_iff firstFinite lastFinite]
      exact and_iff_right ordered
    simp only [ascends, Bool.false_eq_true, if_false, equal, true_and]
    by_cases wide : first < last
    · simp only [wide, not_true_eq_false, if_false, iff_true]
      split <;> simp
    · simp [wide]

omit [FiniteOrder α] in
theorem pointsFinite_iff (points : List α) (field : String) :
    (points.zipIdx.flatMap fun (point, index) =>
        Setting.checkFinite (Field.point field index) (.number point)) = []
      ↔ ∀ point ∈ points, Number.isFinite point = true := by
  simp only [List.flatMap_eq_nil_iff, Prod.forall, List.mk_mem_zipIdx_iff_getElem?,
    checkFinite_eq, ite_eq_left_iff, List.cons_ne_nil, imp_false, not_not]
  rw [forall_comm]
  exact forall_getElem?_iff points _

omit [FiniteOrder α] in
theorem isUsable_pointsFinite_iff (points : List α) (field : String) :
    isUsable (points.zipIdx.flatMap fun (point, index) =>
        Setting.checkFinite (Field.point field index) (.number point)) = true
      ↔ ∀ point ∈ points, Number.isFinite point = true := by
  simp only [isUsable_flatMap_zipIdx, isUsable_checkFinite]
  exact forall_getElem?_iff points _

theorem Shape.isUsable_issues_iff (shape : Shape α) (domain : Domain α) (field : String) :
    isUsable (shape.issues domain field) = true ↔ shape.WellFormed := by
  unfold Shape.issues
  split
  · next miscounted =>
      simp only [isUsable_error, Bool.false_eq_true, false_iff]
      exact fun valid => miscounted valid.count
  · next counted =>
      have count : shape.points.length = shape.kind.breakpointCount := not_not.mp counted
      simp only [List.isEmpty_iff]
      split
      · next noneInfinite =>
          have finite := (pointsFinite_iff _ _).mp noneInfinite
          -- The count of either kind is not 0, so there are a first and a last breakpoint.
          have present : shape.points ≠ [] := by
            rw [← List.length_pos_iff, count]
            cases shape.kind <;> simp [ShapeKind.breakpointCount]
          have isFirst := List.head?_eq_some_head present
          have isLast := List.getLast?_eq_some_getLast present
          rw [isUsable_pointIssues domain field isFirst isLast finite]
          constructor
          · rintro ⟨ascending, wide⟩
            exact ⟨count, finite, ascending, _, _, isFirst, isLast, wide⟩
          · intro valid
            obtain ⟨first, last, alsoFirst, alsoLast, wide⟩ := valid.wide
            rw [isFirst, Option.some_inj] at alsoFirst
            rw [isLast, Option.some_inj] at alsoLast
            subst alsoFirst alsoLast
            exact ⟨valid.ascending, wide⟩
      · next someInfinite =>
          rw [isUsable_pointsFinite_iff]
          rw [pointsFinite_iff] at someInfinite
          constructor
          · intro allFinite
            exact absurd allFinite someInfinite
          · intro valid
            exact absurd valid.finite someInfinite

end Shapes

section Variables

variable [FiniteOrder α]

theorem Domain.wellFormed_iff (v : Variable α) :
    v.domain.WellFormed ↔ Number.isFinite v.domain.least = true
      ∧ Number.isFinite v.domain.greatest = true ∧ v.isEmptyDomain = false := by
  have notEmpty (leastFinite : Number.isFinite v.domain.least = true)
      (greatestFinite : Number.isFinite v.domain.greatest = true) :
      v.isEmptyDomain = false ↔ v.domain.least < v.domain.greatest := by
    simp [Variable.isEmptyDomain, leastFinite, greatestFinite,
      not_le_iff greatestFinite leastFinite]
  constructor
  · rintro ⟨leastFinite, greatestFinite, ordered⟩
    exact ⟨leastFinite, greatestFinite, (notEmpty leastFinite greatestFinite).mpr ordered⟩
  · rintro ⟨leastFinite, greatestFinite, inhabited⟩
    exact ⟨leastFinite, greatestFinite, (notEmpty leastFinite greatestFinite).mp inhabited⟩

theorem Variable.isUsable_issues_iff (v : Variable α) (field : String) :
    isUsable (v.issues field) = true ↔ v.WellFormed := by
  unfold Variable.issues
  simp only [isUsable_append, Bool.and_eq_true, isUsable_checkFilled, isUsable_checkFinite]
  constructor
  · rintro ⟨⟨⟨filled, leastFinite⟩, greatestFinite⟩, checked⟩
    split at checked
    · simp at checked
    · next notEmpty =>
        split at checked
        · simp at checked
        · next inhabited =>
            have domain := (Domain.wellFormed_iff v).mpr
              ⟨leastFinite, greatestFinite, Bool.eq_false_iff.mpr notEmpty⟩
            refine ⟨filled, domain, by simpa using inhabited, ?_⟩
            intro entry member
            exact (Shape.isUsable_issues_iff _ _ _).mp
              ((isUsable_flatMap _ _).mp checked entry member)
  · rintro ⟨filled, domain, inhabited, shapes⟩
    obtain ⟨leastFinite, greatestFinite, notEmpty⟩ := (Domain.wellFormed_iff v).mp domain
    refine ⟨⟨⟨filled, leastFinite⟩, greatestFinite⟩, ?_⟩
    rw [if_neg (Bool.eq_false_iff.mp notEmpty), if_neg (by simpa using inhabited),
      isUsable_flatMap]
    intro entry member
    exact (Shape.isUsable_issues_iff _ _ _).mpr (shapes entry member)

theorem Output.isUsable_resolutionIssues_iff (output : Output α)
    (domain : output.domain.WellFormed) :
    isUsable output.resolutionIssues = true ↔ Number.isFinite output.resolution = true
      ∧ 0 < output.resolution
      ∧ output.resolution ≤ output.domain.greatest - output.domain.least := by
  obtain ⟨leastFinite, greatestFinite, ordered⟩ := domain
  have spanPositive := sub_pos leastFinite greatestFinite ordered
  unfold Output.resolutionIssues
  simp only [spanPositive, not_true_eq_false, if_false]
  by_cases finite : Number.isFinite output.resolution = true
  · rw [← not_le_iff finite isFinite_zero,
      ← not_sub_lt_iff leastFinite greatestFinite finite]
    by_cases fits : ¬ output.resolution ≤ 0
        ∧ ¬ output.domain.greatest - output.domain.least < output.resolution
    · simp only [finite, Bool.not_true, Bool.false_eq_true, fits, or_self, if_false,
        not_false_eq_true, true_and, iff_true]
      split <;> simp
    · have fails := not_and_or.mp fits
      rw [not_not, not_not] at fails
      simp [finite, fails, fits]
  · simp [finite]

theorem Output.isUsable_issues_iff (output : Output α) (field : String) :
    isUsable (output.toVariable.issues field) = true ∧ isUsable output.resolutionIssues = true
      ↔ output.WellFormed := by
  rw [Variable.isUsable_issues_iff]
  constructor
  · rintro ⟨valid, resolution⟩
    obtain ⟨finite, positive, fits⟩ :=
      (Output.isUsable_resolutionIssues_iff output valid.domain).mp resolution
    exact ⟨valid, finite, positive, fits⟩
  · rintro ⟨valid, finite, positive, fits⟩
    exact ⟨valid, (Output.isUsable_resolutionIssues_iff output valid.domain).mpr
      ⟨finite, positive, fits⟩⟩

end Variables

section Rules

omit [Number α]

theorem RuleBase.mem_of_input? {base : RuleBase α} {name : String} {v : Variable α}
    (found : base.input? name = some v) : v ∈ base.inputs ∧ v.name = name :=
  mem_of_find?_reverse found

theorem RuleBase.input?_eq_some_iff {base : RuleBase α}
    (distinct : (base.inputs.map Variable.name).Nodup) (name : String) (v : Variable α) :
    base.input? name = some v ↔ v ∈ base.inputs ∧ v.name = name :=
  find?_reverse_eq_some_iff distinct name v

theorem RuleBase.isUsable_conditionIssues_iff {base : RuleBase α}
    (distinct : (base.inputs.map Variable.name).Nodup) (field : String)
    (condition : Condition) :
    isUsable (base.conditionIssues field condition) = true ↔ condition.WellFormed base := by
  unfold RuleBase.conditionIssues Condition.WellFormed
  split
  · next missing =>
      simp only [isUsable_error, Bool.false_eq_true, false_iff, not_exists, not_and]
      intro v member named
      have found := (RuleBase.input?_eq_some_iff distinct _ v).mpr ⟨member, named⟩
      rw [missing] at found
      cases found
  · next v found =>
      obtain ⟨member, named⟩ := RuleBase.mem_of_input? found
      -- With distinct names any input of the name is the one that is found.
      have sameKeys : (∃ other ∈ base.inputs, other.name = condition.variableName
          ∧ condition.category ∈ other.categories.keys)
          ↔ condition.category ∈ v.categories.keys := by
        constructor
        · rintro ⟨other, otherMember, otherNamed, listed⟩
          have foundOther := (RuleBase.input?_eq_some_iff distinct _ other).mpr
            ⟨otherMember, otherNamed⟩
          rw [found, Option.some_inj] at foundOther
          rwa [foundOther]
        · intro listed
          exact ⟨v, member, named, listed⟩
      rw [sameKeys]
      unfold Record.contains
      split <;> simp_all

theorem RuleBase.isUsable_ruleIssues_iff {base : RuleBase α}
    (distinct : (base.inputs.map Variable.name).Nodup) (index : Nat) (rule : Rule) :
    isUsable (base.ruleIssues index rule) = true
      ↔ rule.WellFormed base ∧ rule.id ∉ (base.rules.take index).map Rule.id := by
  unfold RuleBase.ruleIssues
  simp only [isUsable_append, Bool.and_eq_true, isUsable_checkFilled, isUsable_error_if,
    isUsable_error_unless, isUsable_flatMap_zipIdx,
    RuleBase.isUsable_conditionIssues_iff distinct,
    forall_getElem?_iff rule.conditions fun condition => condition.WellFormed base,
    List.isEmpty_iff, Record.contains, List.contains_iff_mem]
  constructor
  · rintro ⟨⟨⟨⟨filled, fresh⟩, conditional⟩, conditions⟩, conclusion⟩
    exact ⟨⟨filled, conditional, conditions, conclusion⟩, fresh⟩
  · rintro ⟨⟨filled, conditional, conditions, conclusion⟩, fresh⟩
    exact ⟨⟨⟨⟨filled, fresh⟩, conditional⟩, conditions⟩, conclusion⟩

theorem RuleBase.isUsable_unusedCategoryIssues (base : RuleBase α) :
    isUsable base.unusedCategoryIssues = true := by
  rw [isUsable_iff]
  intro issue member
  obtain ⟨name, _, rfl⟩ := List.mem_map.mp member
  rfl

theorem RuleBase.isUsable_unusedInputIssues (base : RuleBase α) :
    isUsable base.unusedInputIssues = true := by
  rw [isUsable_iff]
  intro issue member
  obtain ⟨name, _, rfl⟩ := List.mem_map.mp member
  rfl

theorem RuleBase.isUsable_allRuleIssues_iff {base : RuleBase α}
    (distinct : (base.inputs.map Variable.name).Nodup) :
    isUsable (base.rules.zipIdx.flatMap fun (rule, index) => base.ruleIssues index rule) = true
      ↔ (∀ rule ∈ base.rules, rule.WellFormed base) ∧ (base.rules.map Rule.id).Nodup := by
  simp only [isUsable_flatMap_zipIdx, RuleBase.isUsable_ruleIssues_iff distinct, forall_and,
    forall_getElem?_iff base.rules fun rule => rule.WellFormed base,
    ← nodup_map_iff_not_mem_take]

end Rules

section Bases

variable [FiniteOrder α]

theorem RuleBase.isUsable_inputIssues_iff (base : RuleBase α) (index : Nat) (v : Variable α) :
    isUsable (base.inputIssues index v) = true ↔ v.WellFormed
      ∧ v.name ∉ (base.inputs.take index).map Variable.name ∧ v.name ≠ base.output.name := by
  unfold RuleBase.inputIssues
  simp only [isUsable_append, Bool.and_eq_true, isUsable_error_if, Variable.isUsable_issues_iff,
    not_or, ne_eq]

/-- Every input is checked against those before it, which makes the names distinct. -/
theorem RuleBase.isUsable_allInputIssues_iff (base : RuleBase α) :
    isUsable (base.inputs.zipIdx.flatMap fun (v, index) => base.inputIssues index v) = true
      ↔ (∀ v ∈ base.inputs, v.WellFormed)
        ∧ (base.output.name :: base.inputs.map Variable.name).Nodup := by
  have apartIff : (∀ v ∈ base.inputs, v.name ≠ base.output.name)
      ↔ base.output.name ∉ base.inputs.map Variable.name := by
    simp only [List.mem_map, not_exists, not_and, ne_eq]
  simp only [isUsable_flatMap_zipIdx, RuleBase.isUsable_inputIssues_iff, forall_and,
    forall_getElem?_iff base.inputs Variable.WellFormed, ← nodup_map_iff_not_mem_take,
    forall_getElem?_iff base.inputs fun v => v.name ≠ base.output.name, List.nodup_cons,
    apartIff]
  constructor
  · rintro ⟨valid, distinct, apart⟩
    exact ⟨valid, apart, distinct⟩
  · rintro ⟨valid, apart, distinct⟩
    exact ⟨valid, distinct, apart⟩

theorem RuleBase.isUsable_issues_iff (base : RuleBase α) :
    isUsable base.issues = true ↔ base.WellFormed := by
  unfold RuleBase.issues
  simp only [isUsable_append, Bool.and_eq_true, isUsable_checkFilled, isUsable_error_if,
    List.isEmpty_iff, RuleBase.isUsable_allInputIssues_iff,
    RuleBase.isUsable_unusedCategoryIssues, RuleBase.isUsable_unusedInputIssues, and_true]
  constructor
  · rintro ⟨⟨⟨⟨⟨⟨filled, hasInput⟩, inputs, names⟩, outputIssues⟩, resolution⟩, hasRule⟩, rules⟩
    have output := (Output.isUsable_issues_iff base.output "output").mp
      ⟨outputIssues, resolution⟩
    obtain ⟨valid, ids⟩ :=
      (RuleBase.isUsable_allRuleIssues_iff (List.nodup_cons.mp names).2).mp rules
    exact ⟨filled, hasInput, inputs, output, names, hasRule, valid, ids⟩
  · rintro ⟨filled, hasInput, inputs, output, names, hasRule, valid, ids⟩
    obtain ⟨outputIssues, resolution⟩ :=
      (Output.isUsable_issues_iff base.output "output").mpr output
    have rules := (RuleBase.isUsable_allRuleIssues_iff (List.nodup_cons.mp names).2).mpr
      ⟨valid, ids⟩
    exact ⟨⟨⟨⟨⟨⟨filled, hasInput⟩, inputs, names⟩, outputIssues⟩, resolution⟩, hasRule⟩, rules⟩

/-- Validation accepts exactly the well-formed rule bases, on every carrier whose finite values are
ordered. The errors alone decide it: a rule base may have any warnings and be accepted, and issues
with the same errors come to the same verdict, whatever warnings stand among them. -/
theorem RuleBase.accepted_iff (base : RuleBase α) :
    (isUsable base.issues = true ↔ base.WellFormed)
      ∧ (isUsable base.issues = true ↔ ∀ issue ∈ base.issues, issue.severity = .warning)
      ∧ ∀ issues : List (Issue α), errorsOf issues = errorsOf base.issues →
        isUsable issues = isUsable base.issues := by
  refine ⟨base.isUsable_issues_iff, isUsable_iff_warnings base.issues, ?_⟩
  intro issues sameErrors
  rw [isUsable, isUsable, sameErrors]

def humidityUnread (resolution : Entry Exact) : RuleBase (Entry Exact) :=
  { Shipped.wateringBase with
    output := { Shipped.wateringTime with resolution := resolution }
    rules := Shipped.wateringRules.take 7 }

/-- It is accepted with a warning, and refused where the resolution is missing. -/
theorem RuleBase.accepted_iff_humidityUnread :
    (humidityUnread 1).WellFormed
      ∧ (∀ issue ∈ (humidityUnread 1).issues, issue.severity = .warning)
      ∧ (warningsOf (humidityUnread 1).issues).length = 1
      ∧ isUsable (errorsOf (humidityUnread 1).issues) = isUsable (humidityUnread 1).issues
      ∧ ¬ (humidityUnread .missing).WellFormed := by
  have accepted : isUsable (humidityUnread 1).issues = true := by decide +kernel
  have refused : isUsable (humidityUnread .missing).issues = false := by decide +kernel
  have errorsOnly : errorsOf (errorsOf (humidityUnread 1).issues)
      = errorsOf (humidityUnread 1).issues := by
    simp [errorsOf, List.filter_filter]
  obtain ⟨wellFormed, warned, decided⟩ := RuleBase.accepted_iff (humidityUnread 1)
  refine ⟨wellFormed.mp accepted, warned.mp accepted, by decide +kernel,
    decided _ errorsOnly, ?_⟩
  intro valid
  rw [(RuleBase.accepted_iff (humidityUnread .missing)).1.mpr valid] at refused
  cases refused

end Bases
end Fuzzy
end RuleAdvisor
