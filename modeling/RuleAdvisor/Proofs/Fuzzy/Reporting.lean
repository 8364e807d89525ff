import RuleAdvisor.Proofs.Fuzzy.Acceptance

/-!
Which faults of a rule base are reported, and where. Every part that is not well-formed has an error
at a field of its own, whatever is wrong with the other parts, except for the shapes of a variable
whose domain is empty: such a variable is not looked at any further, and its shapes go unreported.
-/

namespace RuleAdvisor

variable {α : Type}

theorem mem_errorsOf {issues : List (Issue α)} {issue : Issue α} :
    issue ∈ errorsOf issues ↔ issue ∈ issues ∧ issue.isError = true := List.mem_filter

theorem exists_error_of_unusable {issues : List (Issue α)} (unusable : isUsable issues ≠ true) :
    ∃ issue ∈ issues, issue.isError = true := by
  rw [ne_eq, isUsable_iff, not_forall] at unusable
  obtain ⟨issue, grave⟩ := unusable
  obtain ⟨member, notWarning⟩ := not_forall.mp grave
  exact ⟨issue, member, Bool.not_eq_false _ ▸ notWarning⟩

theorem mem_flatMap_zipIdx {β γ : Type} {xs : List β} {f : β × Nat → List γ} {y : γ} :
    y ∈ xs.zipIdx.flatMap f ↔ ∃ index x, xs[index]? = some x ∧ y ∈ f (x, index) := by
  simp only [List.mem_flatMap, Prod.exists, List.mk_mem_zipIdx_iff_getElem?]
  exact exists_comm

section Settings

variable {field : String} {issue : Issue α}

theorem field_of_mem_checkFilled {value : Value α}
    (member : issue ∈ Setting.checkFilled field value) : issue.field = field := by
  unfold Setting.checkFilled at member
  split at member
  · cases member
  · rw [List.mem_singleton.mp member, Issue.error]

theorem field_of_mem_checkFinite [Number α] {value : Value α}
    (member : issue ∈ Setting.checkFinite field value) : issue.field = field := by
  unfold Setting.checkFinite at member
  split at member
  · cases member
  · rw [List.mem_singleton.mp member, Issue.error]

end Settings

namespace Fuzzy

namespace Field

def Under (owner field : String) : Prop := ∃ rest, field = owner ++ ("." ++ rest)

def Plain (field : String) : Prop := ∀ c ∈ field.toList, c ≠ '.'

theorem Under.append {owner field : String} (under : Under owner field) (more : String) :
    Under owner (field ++ more) := by
  obtain ⟨rest, rfl⟩ := under
  exact ⟨rest ++ more, by simp only [String.append_assoc]⟩

theorem Plain.not_under {field : String} (plain : Plain field) (owner : String) :
    ¬ Under owner field := by
  rintro ⟨rest, rfl⟩
  exact plain '.' (by simp) rfl

theorem Under.unique {owner other field : String} (plain : Plain owner) (alsoPlain : Plain other)
    (under : Under owner field) (alsoUnder : Under other field) : owner = other := by
  have root {name : String} (isPlain : Plain name) (rest : String) :
      (name ++ ("." ++ rest)).toList.takeWhile (fun c => c != '.') = name.toList := by
    rw [String.toList_append, List.takeWhile_append_of_pos fun c member => by
      simpa using isPlain c member]
    simp
  obtain ⟨rest, rfl⟩ := under
  obtain ⟨otherRest, same⟩ := alsoUnder
  rw [← String.toList_inj, ← root plain rest, same, root alsoPlain]

theorem toList_numbered (before after : String) (index : Nat) :
    (before ++ toString index ++ after).toList
      = before.toList ++ Nat.toDigits 10 index ++ after.toList := by
  rw [String.toList_append, String.toList_append]
  exact congrArg (fun digits => before.toList ++ digits ++ after.toList) Nat.toList_repr

theorem plain_numbered (before after : String) (first : Plain before) (second : Plain after)
    (index : Nat) : Plain (before ++ toString index ++ after) := by
  intro c member
  rw [toList_numbered, List.mem_append, List.mem_append] at member
  rcases member with (atStart | digit) | atEnd
  · exact first c atStart
  · rintro rfl
    exact absurd (Nat.isDigit_of_mem_toDigits (by norm_num) (by norm_num) digit) (by decide)
  · exact second c atEnd

theorem toList_input (index : Nat) :
    (input index).toList = "inputs[".toList ++ Nat.toDigits 10 index ++ "]".toList :=
  toList_numbered "inputs[" "]" index

theorem toList_rule (index : Nat) :
    (rule index).toList = "rules[".toList ++ Nat.toDigits 10 index ++ "]".toList :=
  toList_numbered "rules[" "]" index

theorem plain_input (index : Nat) : Plain (input index) :=
  plain_numbered "inputs[" "]" (by simp [Plain]) (by simp [Plain]) index

theorem plain_rule (index : Nat) : Plain (rule index) :=
  plain_numbered "rules[" "]" (by simp [Plain]) (by simp [Plain]) index

theorem input_inj {i j : Nat} (same : input i = input j) : i = j := by
  rw [← String.toList_inj, toList_input, toList_input] at same
  have digits : Nat.toDigits 10 i = Nat.toDigits 10 j := by simpa using same
  simpa using congrArg (fun text => Nat.ofDigitChars 10 text 0) digits

theorem rule_ne_input (i j : Nat) : rule i ≠ input j := by
  simp [← String.toList_inj, toList_input, toList_rule]

theorem input_ne_output (i : Nat) : input i ≠ "output" := by
  simp [← String.toList_inj, toList_input]

theorem rule_ne_output (i : Nat) : rule i ≠ "output" := by
  simp [← String.toList_inj, toList_rule]

end Field

variable [Number α]

theorem Shape.field_of_mem_issues {shape : Shape α} {domain : Domain α} {field : String}
    {issue : Issue α} (member : issue ∈ shape.issues domain field) :
    issue.field = field
      ∨ ∃ index < shape.points.length, issue.field = Field.point field index := by
  unfold Shape.issues at member
  split at member
  · exact .inl (by rw [List.mem_singleton.mp member, Issue.error])
  · dsimp only at member
    split at member
    · left
      unfold Domain.pointIssues at member
      dsimp only at member
      split at member
      · rw [List.mem_singleton.mp member, Issue.error]
      · split at member
        · rw [List.mem_singleton.mp member, Issue.error]
        · split at member
          · rw [List.mem_singleton.mp member, Issue.warning]
          · cases member
    · right
      obtain ⟨index, point, listed, found⟩ := mem_flatMap_zipIdx.mp member
      exact ⟨index, (List.getElem?_eq_some_iff.mp listed).1, field_of_mem_checkFinite found⟩

theorem Field.under_name (owner : String) : Under owner (name owner) := ⟨"name", rfl⟩

theorem Field.under_domain (owner : String) : Under owner (domain owner) := ⟨"universe", rfl⟩

theorem Field.under_category (owner name : String) : Under owner (category owner name) :=
  ⟨"categories." ++ name, by simp only [category, String.append_assoc]; rfl⟩

theorem Field.toList_of_category {owner name more other : String}
    (same : category owner name ++ more = owner ++ other) :
    ∃ rest, other.toList = ".categories.".toList ++ rest := by
  simp only [category, String.append_assoc, String.append_right_inj] at same
  exact ⟨(name ++ more).toList, by rw [← same, String.toList_append]⟩

theorem Field.point_eq (field : String) (index : Nat) :
    point field index = field ++ (".points[" ++ toString index ++ "]") := by
  simp only [point, String.append_assoc]
  rfl

namespace Variable

variable {v : Variable α} {owner : String} {issue : Issue α}

/-- An issue of a variable is about its name or its domain, or about its categories, which are
looked at only if its domain is not empty. -/
theorem field_of_mem_issues (member : issue ∈ v.issues owner) :
    (issue.field = Field.name owner
        ∨ ∃ bound, issue.field = Field.domain owner ++ bound)
      ∨ v.isEmptyDomain = false ∧ Field.Under owner issue.field := by
  unfold issues at member
  rcases List.mem_append.mp member with checked | rest
  · rcases List.mem_append.mp checked with checked | greatest
    · rcases List.mem_append.mp checked with name | least
      · exact .inl (.inl (field_of_mem_checkFilled name))
      · exact .inl (.inr ⟨_, field_of_mem_checkFinite least⟩)
    · exact .inl (.inr ⟨_, field_of_mem_checkFinite greatest⟩)
  -- Behind the domain come the categories, if the domain has room for them.
  · split at rest
    · rw [List.mem_singleton.mp rest]
      exact .inl (.inr ⟨"", by simp [Issue.error]⟩)
    · next inhabited =>
        refine .inr ⟨Bool.eq_false_iff.mpr inhabited, ?_⟩
        split at rest
        · rw [List.mem_singleton.mp rest]
          exact ⟨"categories", by simp only [Issue.error, Field.categories]; rfl⟩
        · obtain ⟨⟨name, shape⟩, _, found⟩ := List.mem_flatMap.mp rest
          have category := Field.under_category owner name
          rcases Shape.field_of_mem_issues found with same | ⟨index, _, same⟩
          · rwa [same]
          · rw [same, Field.point_eq]
            exact category.append _

theorem under_of_mem_issues (member : issue ∈ v.issues owner) : Field.Under owner issue.field := by
  rcases field_of_mem_issues member with (same | ⟨bound, same⟩) | ⟨_, under⟩
  · rw [same]
    exact Field.under_name owner
  · rw [same]
    exact (Field.under_domain owner).append bound
  · exact under

end Variable

theorem Output.field_of_mem_resolutionIssues {output : Output α} {issue : Issue α}
    (member : issue ∈ output.resolutionIssues) : issue.field = "output.resolution" := by
  unfold resolutionIssues at member
  dsimp only at member
  split at member
  · cases member
  · split at member
    · rw [List.mem_singleton.mp member, Issue.error]
    · split at member
      · rw [List.mem_singleton.mp member, Issue.warning]
      · cases member

namespace RuleBase

variable {base : RuleBase α} {issue : Issue α}

/-- The variables of a rule base, each with the field it stands in. -/
inductive Declares (base : RuleBase α) : String → Variable α → Prop where
  | input {index : Nat} {v : Variable α} (found : base.inputs[index]? = some v) :
      Declares base (Field.input index) v
  | output : Declares base "output" base.output.toVariable

/-- Some error names the field. -/
def Reports (base : RuleBase α) (field : String) : Prop :=
  ∃ issue ∈ errorsOf base.issues, issue.field = field

def ReportsShape (base : RuleBase α) (field : String) (shape : Shape α) : Prop :=
  base.Reports field ∨ ∃ index < shape.points.length, base.Reports (Field.point field index)

section Parts

variable {owner : String} {v : Variable α}

omit [Number α] in
theorem Declares.plain (declared : base.Declares owner v) : Field.Plain owner := by
  cases declared with
  | input found => exact Field.plain_input _
  | output => simp [Field.Plain]

omit [Number α] in
theorem Declares.unique {w : Variable α} (declared : base.Declares owner v)
    {other : String} (alsoDeclared : base.Declares other w) (same : owner = other) : v = w := by
  cases declared with
  | input found =>
      cases alsoDeclared with
      | input alsoFound =>
          rw [Field.input_inj same, alsoFound] at found
          exact (Option.some_inj.mp found).symm
      | output => exact absurd same (Field.input_ne_output _)
  | output =>
      cases alsoDeclared with
      | input _ => exact absurd same.symm (Field.input_ne_output _)
      | output => rfl

theorem Declares.mem_issues (declared : base.Declares owner v) (member : issue ∈ v.issues owner) :
    issue ∈ base.issues := by
  unfold issues
  simp only [List.mem_append, mem_flatMap_zipIdx]
  cases declared with
  | @input index v found =>
      have own : issue ∈ base.inputIssues index v := List.mem_append_left _ member
      have among : ∃ index v, base.inputs[index]? = some v ∧ issue ∈ base.inputIssues index v :=
        ⟨index, v, found, own⟩
      simp only [among, or_true, true_or]
  | output => simp only [member, or_true, true_or]

theorem mem_issues_of_rule {index : Nat} {rule : Rule} (found : base.rules[index]? = some rule)
    (member : issue ∈ base.ruleIssues index rule) : issue ∈ base.issues := by
  unfold issues
  simp only [List.mem_append, mem_flatMap_zipIdx]
  have among : ∃ index rule, base.rules[index]? = some rule
      ∧ issue ∈ base.ruleIssues index rule := ⟨index, rule, found, member⟩
  simp only [among, or_true, true_or]

omit [Number α] in
theorem field_of_mem_conditionIssues {field : String} {condition : Condition}
    (member : issue ∈ base.conditionIssues field condition) : issue.field = field := by
  unfold conditionIssues at member
  split at member
  · rw [List.mem_singleton.mp member, Issue.error]
  · split at member
    · cases member
    · rw [List.mem_singleton.mp member, Issue.error]

omit [Number α] in
theorem under_of_mem_ruleIssues {index : Nat} {rule : Rule}
    (member : issue ∈ base.ruleIssues index rule) :
    Field.Under (Field.rule index) issue.field := by
  unfold ruleIssues at member
  simp only [List.mem_append, mem_flatMap_zipIdx, List.mem_ite_nil_right, List.mem_ite_nil_left,
    List.mem_singleton] at member
  rcases member with (((filled | ⟨_, rfl⟩) | ⟨_, rfl⟩) | ⟨place, condition, _, found⟩) | ⟨_, rfl⟩
  · exact ⟨"id", field_of_mem_checkFilled filled⟩
  · exact ⟨"id", rfl⟩
  · exact ⟨"when", rfl⟩
  · refine ⟨"when[" ++ toString place ++ "]", ?_⟩
    rw [field_of_mem_conditionIssues found]
    simp only [Field.condition, String.append_assoc]
    rfl
  · exact ⟨"then", rfl⟩

theorem Declares.field_of_error (declared : base.Declares owner v)
    (found : issue ∈ errorsOf base.issues) (under : Field.Under owner issue.field) :
    issue ∈ v.issues owner ∨ issue.field = Field.name owner
      ∨ owner = "output" ∧ issue.field = "output.resolution" := by
  have plain := declared.plain
  obtain ⟨member, grave⟩ := mem_errorsOf.mp found
  have notPlain : ¬ Field.Plain issue.field := fun whole => whole.not_under owner under
  have notWarning {issues : List (Issue α)} (usable : isUsable issues = true) :
      issue ∉ issues := by
    intro listed
    rw [(isUsable_iff issues).mp usable issue listed] at grave
    cases grave
  -- What stands before the first dot of the field tells which part the error comes from.
  have here {other : String} {w : Variable α} (alsoDeclared : base.Declares other w)
      (otherUnder : Field.Under other issue.field) : owner = other :=
    under.unique plain alsoDeclared.plain otherUnder
  unfold issues at member
  simp only [List.mem_append, mem_flatMap_zipIdx, List.mem_ite_nil_right,
    List.mem_singleton] at member
  rcases member with (((((((version | ⟨_, rfl⟩) | ⟨index, w, listed, own⟩) | own) | own)
    | ⟨_, rfl⟩) | ⟨index, rule, _, own⟩) | unused) | unused
  · rw [field_of_mem_checkFilled version] at notPlain
    exact absurd (by simp [Field.Plain]) notPlain
  · exact absurd (by simp [Field.Plain, Issue.error]) notPlain
  · have input := Declares.input listed
    rcases List.mem_append.mp own with own | repeated
    · have same := here input (Variable.under_of_mem_issues own)
      rw [declared.unique input same, same]
      exact .inl own
    · have field : issue.field = Field.name (Field.input index) := by
        rw [List.mem_singleton.mp (List.mem_ite_nil_right.mp repeated).2, Issue.error]
      have same := here input (field ▸ Field.under_name _)
      exact .inr (.inl (same ▸ field))
  · have same := here .output (Variable.under_of_mem_issues own)
    rw [declared.unique .output same, same]
    exact .inl own
  · have field := Output.field_of_mem_resolutionIssues own
    have same := here .output ⟨"resolution", field⟩
    exact .inr (.inr ⟨same, field⟩)
  · exact absurd (by simp [Field.Plain, Issue.error]) notPlain
  · have same := under.unique plain (Field.plain_rule index) (under_of_mem_ruleIssues own)
    cases declared with
    | @input other v _ => exact absurd same.symm (Field.rule_ne_input index other)
    | output => exact absurd same.symm (Field.rule_ne_output index)
  · exact absurd unused (notWarning base.isUsable_unusedCategoryIssues)
  · exact absurd unused (notWarning base.isUsable_unusedInputIssues)

theorem Declares.not_reports_category (declared : base.Declares owner v)
    (empty : v.isEmptyDomain = true) (name more : String) :
    ¬ base.Reports (Field.category owner name ++ more) := by
  rintro ⟨issue, found, field⟩
  have under : Field.Under owner issue.field := by
    rw [field]
    exact (Field.under_category owner name).append more
  have apart {other : String} (same : issue.field = owner ++ other) :
      ∃ rest, other.toList = ".categories.".toList ++ rest :=
    Field.toList_of_category (field.symm.trans same)
  rcases declared.field_of_error found under with own | named | ⟨rfl, resolution⟩
  · rcases Variable.field_of_mem_issues own with (named | ⟨bound, ends⟩) | ⟨inhabited, _⟩
    · simpa using apart named
    · rw [Field.domain, String.append_assoc] at ends
      simpa using apart ends
    · rw [empty] at inhabited
      cases inhabited
  · simpa using apart named
  · have split : issue.field = "output" ++ ".resolution" := resolution
    simpa using apart split

theorem Declares.not_reportsShape (declared : base.Declares owner v)
    (empty : v.isEmptyDomain = true) (name : String) (shape : Shape α) :
    ¬ base.ReportsShape (Field.category owner name) shape := by
  rintro (whole | ⟨index, _, point⟩)
  · refine declared.not_reports_category empty name "" ?_
    rwa [String.append_empty]
  · rw [Field.point_eq] at point
    exact declared.not_reports_category empty name _ point

theorem Declares.reportsShape [FiniteOrder α] (declared : base.Declares owner v)
    (inhabited : v.isEmptyDomain = false) {name : String} {shape : Shape α}
    (listed : (name, shape) ∈ v.categories.entries) (faulty : ¬ shape.WellFormed) :
    base.ReportsShape (Field.category owner name) shape := by
  rw [← Shape.isUsable_issues_iff shape v.domain (Field.category owner name)] at faulty
  obtain ⟨issue, own, grave⟩ := exists_error_of_unusable faulty
  have member : issue ∈ v.issues owner := by
    unfold Variable.issues
    rw [inhabited, if_neg Bool.false_ne_true, if_neg (by simp [List.ne_nil_of_mem listed])]
    exact List.mem_append_right _ (List.mem_flatMap.mpr ⟨_, listed, own⟩)
  have found := mem_errorsOf.mpr ⟨declared.mem_issues member, grave⟩
  rcases Shape.field_of_mem_issues own with field | ⟨index, within, field⟩
  · exact .inl ⟨issue, found, field⟩
  · exact .inr ⟨index, within, issue, found, field⟩

end Parts

section Rules

variable {index : Nat} {rule : Rule} (found : base.rules[index]? = some rule)

omit [Number α] in
theorem exists_conditionError {condition : Condition} (unknown : ¬ condition.WellFormed base)
    (field : String) :
    ∃ issue ∈ base.conditionIssues field condition, issue.isError = true := by
  unfold conditionIssues
  split
  · exact ⟨_, List.mem_singleton_self _, rfl⟩
  · next v found =>
      obtain ⟨member, named⟩ := mem_of_input? found
      split
      · next has => exact absurd ⟨v, member, named, by simpa [Record.contains] using has⟩ unknown
      · exact ⟨_, List.mem_singleton_self _, rfl⟩

include found

theorem reports_of_mem_ruleIssues (member : issue ∈ base.ruleIssues index rule)
    (grave : issue.isError = true) : base.Reports issue.field :=
  ⟨issue, mem_errorsOf.mpr ⟨mem_issues_of_rule found member, grave⟩, rfl⟩

theorem reports_condition {place : Nat} {condition : Condition}
    (listed : rule.conditions[place]? = some condition) (unknown : ¬ condition.WellFormed base) :
    base.Reports (Field.condition (Field.rule index) place) := by
  obtain ⟨issue, own, grave⟩ :=
    exists_conditionError unknown (Field.condition (Field.rule index) place)
  rw [← field_of_mem_conditionIssues own]
  refine reports_of_mem_ruleIssues found ?_ grave
  have among := mem_flatMap_zipIdx (f := fun found =>
    base.conditionIssues (Field.condition (Field.rule index) found.2) found.1).mpr
      ⟨place, condition, listed, own⟩
  exact List.mem_append_left _ (List.mem_append_right _ among)

theorem reports_conclusion (unknown : rule.conclusion ∉ base.output.categories.keys) :
    base.Reports (Field.rule index ++ ".then") := by
  have among : Issue.error (Field.rule index ++ ".then") (.unknownConclusion rule.conclusion)
      ∈ base.ruleIssues index rule := by
    refine List.mem_append_right _ ?_
    rw [if_neg (by simpa [Record.contains] using unknown)]
    exact List.mem_singleton_self _
  exact reports_of_mem_ruleIssues found among rfl

theorem reports_unconditional (unconditional : rule.conditions = []) :
    base.Reports (Field.rule index ++ ".when") := by
  have among : Issue.error (Field.rule index ++ ".when") .noCondition
      ∈ base.ruleIssues index rule := by
    simp [ruleIssues, unconditional]
  exact reports_of_mem_ruleIssues found among rfl

theorem reports_repeated (repeated : rule.id ∈ (base.rules.take index).map Rule.id) :
    base.Reports (Field.rule index ++ ".id") := by
  have among : Issue.error (Field.rule index ++ ".id") (.duplicateRule rule.id)
      ∈ base.ruleIssues index rule := by
    simp only [ruleIssues, if_pos repeated, List.mem_append, List.mem_singleton, true_or, or_true]
  exact reports_of_mem_ruleIssues found among rfl

end Rules

/-- Every faulty part is reported at a field of its own, whatever is wrong with the others: each
shape that is not well-formed, exactly if the domain of its variable is not empty, each condition
that no input of its name meets, each unknown conclusion, each rule without conditions and each
repeated id. -/
theorem faults_reported_iff [FiniteOrder α] (base : RuleBase α) :
    (∀ owner v, base.Declares owner v → ∀ name shape, (name, shape) ∈ v.categories.entries →
      ¬ shape.WellFormed →
        (base.ReportsShape (Field.category owner name) shape ↔ v.isEmptyDomain = false))
    ∧ ∀ index rule, base.rules[index]? = some rule →
      (∀ place condition, rule.conditions[place]? = some condition → ¬ condition.WellFormed base →
        base.Reports (Field.condition (Field.rule index) place))
      ∧ (rule.conclusion ∉ base.output.categories.keys →
        base.Reports (Field.rule index ++ ".then"))
      ∧ (rule.conditions = [] → base.Reports (Field.rule index ++ ".when"))
      ∧ (rule.id ∈ (base.rules.take index).map Rule.id →
        base.Reports (Field.rule index ++ ".id")) := by
  constructor
  · intro owner v declared name shape listed faulty
    constructor
    · intro reported
      rw [← Bool.not_eq_true]
      exact fun empty => declared.not_reportsShape empty name shape reported
    · intro inhabited
      exact declared.reportsShape inhabited listed faulty
  · intro index rule found
    refine ⟨?_, reports_conclusion found, reports_unconditional found, reports_repeated found⟩
    intro place condition listed unknown
    exact reports_condition found listed unknown

end RuleBase

def fallingShape : Shape (Entry Exact) := ⟨.triangular, [40, 20, 0]⟩

def flatShape : Shape (Entry Exact) := ⟨.triangular, [5, 5, 5]⟩

def fallingSoil (least greatest : Entry Exact) : Variable (Entry Exact) where
  name := "soil"
  unit := "%"
  domain := ⟨least, greatest⟩
  categories := .mk [("dry", fallingShape)] (by simp)

def flatTime : Output (Entry Exact) where
  name := "time"
  unit := " min"
  domain := ⟨0, 10⟩
  categories := .mk [("short", flatShape)] (by simp)
  resolution := .missing

/-- Neither of its rules is well-formed, and they share an id. -/
def faultyBase : RuleBase (Entry Exact) where
  version := " "
  inputs := [fallingSoil 0 100]
  output := flatTime
  rules := [⟨"A", "", [⟨"soil", "soggy", false⟩, ⟨"wind", "calm", true⟩], "long"⟩,
    ⟨"A", "", [], "short"⟩]

theorem fallingShape_faulty : ¬ fallingShape.WellFormed := by
  intro valid
  exact absurd valid.ascending (by decide +kernel)

theorem flatShape_faulty : ¬ flatShape.WellFormed := by
  rintro ⟨_, _, _, first, last, isFirst, isLast, apart⟩
  cases isFirst
  cases isLast
  exact absurd apart (by decide +kernel)

theorem faultyBase_unmet {condition : Condition}
    (unknown : condition.variableName ≠ "soil" ∨ condition.category ≠ "dry") :
    ¬ condition.WellFormed faultyBase := by
  rintro ⟨v, member, named, category⟩
  obtain rfl := List.mem_singleton.mp member
  rcases unknown with other | other
  · exact other named.symm
  · exact other (List.mem_singleton.mp category)

/-- All the faults of one rule base are reported at once. -/
theorem RuleBase.faults_reported_iff_many :
    faultyBase.Declares (Field.input 0) (fallingSoil 0 100)
      ∧ faultyBase.ReportsShape (Field.category (Field.input 0) "dry") fallingShape
      ∧ faultyBase.ReportsShape (Field.category "output" "short") flatShape
      ∧ faultyBase.Reports (Field.condition (Field.rule 0) 0)
      ∧ faultyBase.Reports (Field.condition (Field.rule 0) 1)
      ∧ faultyBase.Reports (Field.rule 0 ++ ".then")
      ∧ faultyBase.Reports (Field.rule 1 ++ ".when")
      ∧ faultyBase.Reports (Field.rule 1 ++ ".id") := by
  obtain ⟨shapes, rules⟩ := RuleBase.faults_reported_iff faultyBase
  obtain ⟨conditions, conclusion, -, -⟩ := rules 0 _ rfl
  obtain ⟨-, -, unconditional, repeated⟩ := rules 1 _ rfl
  have soil : faultyBase.Declares (Field.input 0) (fallingSoil 0 100) := .input rfl
  refine ⟨soil, ?_, ?_, ?_, ?_, ?_, unconditional rfl, repeated (by simp [faultyBase])⟩
  · exact (shapes _ _ soil "dry" fallingShape (by simp [fallingSoil]) fallingShape_faulty).mpr
      (by decide +kernel)
  · exact (shapes _ _ .output "short" flatShape (by simp [faultyBase, flatTime])
      flatShape_faulty).mpr (by decide +kernel)
  · exact conditions 0 _ rfl (faultyBase_unmet (.inr (by decide)))
  · exact conditions 1 _ rfl (faultyBase_unmet (.inl (by decide)))
  · exact conclusion (by simp [faultyBase, flatTime, Record.keys])

def reversedBase : RuleBase (Entry Exact) where
  version := "1"
  inputs := [fallingSoil 100 0]
  output := { flatTime with
    categories := .mk [("short", ⟨.triangular, [0, 5, 10]⟩)] (by simp)
    resolution := 1 }
  rules := [⟨"A", "Dry soil", [⟨"soil", "dry", false⟩], "short"⟩]

/-- Nothing is said of the shape that falls, only of the domain. -/
theorem falling_shape_unreported :
    reversedBase.Declares (Field.input 0) (fallingSoil 100 0)
      ∧ ("dry", fallingShape) ∈ (fallingSoil 100 0).categories.entries
      ∧ ¬ fallingShape.WellFormed
      ∧ ¬ reversedBase.ReportsShape (Field.category (Field.input 0) "dry") fallingShape
      ∧ (errorsOf reversedBase.issues).map Issue.field = [Field.domain (Field.input 0)] := by
  have soil : reversedBase.Declares (Field.input 0) (fallingSoil 100 0) := .input rfl
  have empty : (fallingSoil 100 0).isEmptyDomain = true := by decide +kernel
  exact ⟨soil, by simp [fallingSoil], fallingShape_faulty,
    soil.not_reportsShape empty "dry" fallingShape, by decide +kernel⟩

end Fuzzy
end RuleAdvisor
