import RuleAdvisor.Fuzzy.Inference
import RuleAdvisor.Proofs.Fuzzy.Degree
import RuleAdvisor.Proofs.Number.Order
import RuleAdvisor.Proofs.Traversal

/-!
From readings to strengths. Over a well-formed rule base, of which every input is supplied, all
inputs are read, every condition reads something and every rule has its strength. All degrees lie
between 0 and 1, and so do the strengths, except that a rule that asks for the category under the
reserved key has a strength that is no number.
-/

namespace RuleAdvisor

theorem Record.map_congr {β γ : Type} {f g : β → γ} {record : Record β}
    (same : ∀ entry ∈ record.entries, f entry.2 = g entry.2) : record.map f = record.map g := by
  have entries : (record.entries.map fun entry => (entry.1, f entry.2))
      = record.entries.map fun entry => (entry.1, g entry.2) := by
    apply List.map_congr_left
    intro entry member
    rw [same entry member]
  simp only [Record.map, entries]

namespace Fuzzy

open Exact

theorem Domain.WellFormed.exists_ends {domain : Domain Exact} (valid : domain.WellFormed) :
    ∃ least greatest : Rat, domain = ⟨rat least, rat greatest⟩ ∧ least < greatest := by
  obtain ⟨low, high⟩ := domain
  obtain ⟨least, rfl⟩ := (isFinite_iff low).mp valid.leastFinite
  obtain ⟨greatest, rfl⟩ := (isFinite_iff high).mp valid.greatestFinite
  exact ⟨least, greatest, rfl, (rat_lt _ _).mp valid.ordered⟩

theorem Variable.WellFormed.read_within {v : Variable Exact} (valid : v.WellFormed)
    (value : Exact) :
    v.domain.least ≤ (v.read value).value ∧ (v.read value).value ≤ v.domain.greatest := by
  obtain ⟨least, greatest, ends, ordered⟩ := valid.domain.exists_ends
  obtain ⟨q, clamped, above, below⟩ := clamp_between value ordered.le
  simp [Variable.read, ends, clamped, above, below]

theorem Variable.WellFormed.exists_read {v : Variable Exact} (valid : v.WellFormed)
    (value : Exact) : ∃ q, v.read value = ⟨rat q, v.degreesAt (rat q)⟩ := by
  obtain ⟨least, greatest, ends, ordered⟩ := valid.domain.exists_ends
  obtain ⟨q, clamped, _⟩ := clamp_between value ordered.le
  exact ⟨q, by simp only [Variable.read, ends, clamped]⟩

theorem Variable.WellFormed.shape_of_get? {v : Variable Exact} (valid : v.WellFormed)
    {category : String} {shape : Shape Exact} (found : v.categories.get? category = some shape) :
    shape.WellFormed :=
  valid.shapes _ ((Record.get?_eq_some_iff _ _ _).mp found)

/-- The categories whose degrees are recorded. -/
def Variable.recorded {α : Type} (v : Variable α) : List String :=
  v.categories.keys.filter (· != Record.reserved)

theorem Variable.keys_degreesAt {α : Type} [Number α] (v : Variable α) (x : α) :
    (v.degreesAt x).keys = v.recorded := by
  rw [degreesAt, Record.keys_erase, Record.keys_map, recorded]

theorem Variable.get?_degreesAt {α : Type} [Number α] (v : Variable α) (x : α)
    (category : String) :
    (v.degreesAt x).get? category = if category = Record.reserved then none
      else (v.categories.get? category).map fun shape => shape.degree x := by
  rw [degreesAt, Record.get?_erase, Record.get?_map]

theorem Variable.WellFormed.isDegree_read {v : Variable Exact} (valid : v.WellFormed)
    {value degree : Exact} {category : String}
    (found : (v.read value).degrees.get? category = some degree) : IsDegree degree := by
  obtain ⟨q, reading⟩ := valid.exists_read value
  rw [reading, Variable.get?_degreesAt] at found
  split at found
  · cases found
  · obtain ⟨shape, listed, rfl⟩ := Option.map_eq_some_iff.mp found
    exact (valid.shape_of_get? listed).isDegree q

theorem Variable.WellFormed.read_answering {v : Variable Exact} (valid : v.WellFormed)
    (byZero : Exact → Exact) (value : Exact) :
    @Variable.read Exact (answering byZero) v value = v.read value := by
  obtain ⟨least, greatest, ends, ordered⟩ := valid.domain.exists_ends
  obtain ⟨q, clamped, _⟩ := clamp_between value ordered.le
  have sameDegrees : @Variable.degreesAt Exact (answering byZero) v (rat q)
      = v.degreesAt (rat q) :=
    congrArg (Record.erase · Record.reserved) (Record.map_congr fun entry member =>
      (valid.shapes entry member).degree_answering byZero q)
  show (let clamped := Number.clamp value v.domain.least v.domain.greatest
    (⟨clamped, @Variable.degreesAt Exact (answering byZero) v clamped⟩ : Reading Exact)) = _
  simp only [Variable.read, ends, clamped, sameDegrees]

section Reading

variable {α : Type} [Number α]

/-- What the variable makes of the value under its name stands there too. -/
def Fuzzified.Reads (inputs : Fuzzified α) (v : Variable α) (values : Record α) : Prop :=
  ∃ value, values.get? v.name = some value
    ∧ inputs.values.get? v.name = some (v.read value).value
    ∧ inputs.degrees.get? v.name = some (v.read value).degrees

/-- Nothing is read under this name beyond what was. -/
def Fuzzified.SameAt (done result : Fuzzified α) (name : String) : Prop :=
  result.values.get? name = done.values.get? name
    ∧ result.degrees.get? name = done.degrees.get? name

variable [Complete α]

theorem Fuzzified.addReading_eq {values : Record α} {v : Variable α} {value : α}
    (supplied : values.get? v.name = some value) (done : Fuzzified α) :
    done.addReading v values = .ok ⟨done.values.insert v.name (v.read value).value,
      done.degrees.insert v.name (v.read value).degrees⟩ := by
  simp [Fuzzified.addReading, supplied, Complete.isGiven_eq]

theorem exists_foldlM_addReading {values : Record α} {vs : List (Variable α)}
    (distinct : (vs.map Variable.name).Nodup)
    (supplied : ∀ v ∈ vs, ∃ value, values.get? v.name = some value) (done : Fuzzified α) :
    ∃ result, vs.foldlM (fun done v => done.addReading v values) done = .ok result
      ∧ (∀ v ∈ vs, result.Reads v values)
      ∧ ∀ name ∉ vs.map Variable.name, done.SameAt result name := by
  -- A later variable has another name and leaves what stands under this one's alone.
  induction vs generalizing done with
  | nil =>
      refine ⟨done, rfl, ?_, ?_⟩
      · intro v member
        cases member
      · intro name _
        exact ⟨rfl, rfl⟩
  | cons v rest ih =>
      obtain ⟨fresh, restDistinct⟩ := List.nodup_cons.mp distinct
      obtain ⟨value, given⟩ := supplied v List.mem_cons_self
      obtain ⟨result, read, later, unchanged⟩ :=
        ih restDistinct (fun other member => supplied other (List.mem_cons_of_mem _ member))
          ⟨done.values.insert v.name (v.read value).value,
            done.degrees.insert v.name (v.read value).degrees⟩
      refine ⟨result, ?_, ?_, ?_⟩
      · rw [List.foldlM_cons, Fuzzified.addReading_eq given done]
        exact read
      · intro other member
        rcases List.mem_cons.mp member with rfl | inRest
        · obtain ⟨sameValue, sameDegrees⟩ := unchanged other.name fresh
          refine ⟨value, given, ?_, ?_⟩
          · rw [sameValue, Record.get?_insert, if_pos rfl]
          · rw [sameDegrees, Record.get?_insert, if_pos rfl]
        · exact later other inRest
      · intro name missing
        rw [List.map_cons, List.mem_cons, not_or] at missing
        obtain ⟨sameValue, sameDegrees⟩ := unchanged name missing.2
        constructor
        · rw [sameValue, Record.get?_insert, if_neg missing.1]
        · rw [sameDegrees, Record.get?_insert, if_neg missing.1]

theorem RuleBase.WellFormed.exists_reading {base : RuleBase α} (valid : base.WellFormed)
    {values : Record α}
    (supplied : ∀ v ∈ base.inputs, ∃ value, values.get? v.name = some value) :
    ∃ inputs, base.fuzzify values = .ok inputs
      ∧ (∀ v ∈ base.inputs, inputs.Reads v values)
      ∧ ∀ name ∉ base.inputs.map Variable.name, inputs.degrees.get? name = none := by
  have distinct := (List.nodup_cons.mp valid.names).2
  obtain ⟨inputs, read, holds, unchanged⟩ :=
    exists_foldlM_addReading distinct supplied ⟨.empty, .empty⟩
  exact ⟨inputs, read, holds, fun name missing => (unchanged name missing).2⟩

end Reading

namespace RuleBase.WellFormed

variable {base : RuleBase Exact} (valid : base.WellFormed) {values : Record Exact}
  (supplied : ∀ v ∈ base.inputs, ∃ value, values.get? v.name = some value)

include valid supplied

theorem exists_fuzzify :
    ∃ inputs, base.fuzzify values = .ok inputs
      ∧ (∀ v ∈ base.inputs, inputs.Reads v values)
      ∧ ∀ name degrees, inputs.degrees.get? name = some degrees →
        ∀ category degree, degrees.get? category = some degree → IsDegree degree := by
  obtain ⟨inputs, read, holds, nothingElse⟩ := valid.exists_reading supplied
  refine ⟨inputs, read, holds, ?_⟩
  intro name degrees stored
  -- Every name that has degrees is that of an input.
  by_cases named : name ∈ base.inputs.map Variable.name
  · obtain ⟨v, member, rfl⟩ := List.mem_map.mp named
    obtain ⟨value, _, _, underName⟩ := holds v member
    rw [underName, Option.some_inj] at stored
    subst stored
    exact fun category degree found => (valid.inputs v member).isDegree_read found
  · rw [nothingElse name named] at stored
    cases stored

theorem fuzzify_answering (byZero : Exact → Exact) :
    @RuleBase.fuzzify Exact (answering byZero) base values = base.fuzzify values := by
  apply foldlM_congr
  intro v member done
  obtain ⟨value, given⟩ := supplied v member
  rw [Fuzzified.addReading_eq given]
  unfold Fuzzified.addReading
  simp only [given, (valid.inputs v member).read_answering byZero]
  rfl

end RuleBase.WellFormed

section Firing

variable {α : Type} [Number α]

theorem Condition.degree_congr {condition : Condition} {degrees others : Record (Record α)}
    (same : degrees.get? condition.variableName = others.get? condition.variableName) :
    condition.degree degrees = condition.degree others := by
  simp only [Condition.degree, same]

theorem Condition.degree_of_degreeIn? {condition : Condition} {degrees : Record (Record α)}
    {held : Record α} {degree : α} (stored : degrees.get? condition.variableName = some held)
    (found : degreeIn? held condition.category = some degree) :
    condition.degree degrees = .ok (if condition.negated then 1 - degree else degree) := by
  simp only [Condition.degree, stored, Option.bind_some, found]

theorem Rule.strength_eq (rule : Rule) (degrees : Record (Record α)) :
    rule.strength degrees = (rule.conditions.mapM (Condition.degree · degrees)).map
      fun found => found.foldl Number.least 1 :=
  foldlM_map_eq rule.conditions 1

/-- What holds of each condition's degree, and of the smaller of two, holds of the weakest. -/
theorem exists_foldlM_least {degrees : Record (Record α)} {conditions : List Condition}
    {holds : α → Prop} (least : ∀ {x y}, holds x → holds y → holds (Number.least x y))
    (each : ∀ condition ∈ conditions,
      ∃ degree, condition.degree degrees = .ok degree ∧ holds degree)
    {weakest : α} (start : holds weakest) :
    ∃ strength, conditions.foldlM (fun weakest condition =>
        (condition.degree degrees).map (Number.least weakest)) weakest = .ok strength
      ∧ holds strength := by
  induction conditions generalizing weakest with
  | nil => exact ⟨weakest, rfl, start⟩
  | cons condition rest ih =>
      obtain ⟨degree, found, isDegree⟩ := each condition List.mem_cons_self
      rw [List.foldlM_cons, found]
      exact ih (fun other member => each other (List.mem_cons_of_mem _ member))
        (least start isDegree)

theorem Rule.exists_activation {rule : Rule} {degrees : Record (Record α)} {holds : α → Prop}
    (one : holds 1) (least : ∀ {x y}, holds x → holds y → holds (Number.least x y))
    (each : ∀ condition ∈ rule.conditions,
      ∃ degree, condition.degree degrees = .ok degree ∧ holds degree) :
    ∃ strength, rule.activation degrees = .ok ⟨rule.id, rule.conclusion, strength⟩
      ∧ holds strength := by
  obtain ⟨strength, fires, satisfied⟩ := exists_foldlM_least least each one
  refine ⟨strength, ?_, satisfied⟩
  rw [Rule.activation, Rule.strength, fires]
  rfl

/-- If every condition has its degree, every rule of a well-formed rule base fires, for a category
of the output. -/
theorem RuleBase.WellFormed.exists_fired {base : RuleBase α} (valid : base.WellFormed)
    {degrees : Record (Record α)} {holds : α → Prop} (one : holds 1)
    (least : ∀ {x y}, holds x → holds y → holds (Number.least x y))
    (each : ∀ rule ∈ base.rules, ∀ condition ∈ rule.conditions,
      ∃ degree, condition.degree degrees = .ok degree ∧ holds degree) :
    ∃ activations, activationsOf base.rules degrees = .ok activations
      ∧ ∀ activation ∈ activations,
        activation.conclusion ∈ base.output.categories.keys ∧ holds activation.strength := by
  have fires (rule : Rule) (member : rule ∈ base.rules) :=
    Rule.exists_activation one least (each rule member)
  obtain ⟨activations, walked⟩ := exists_mapM_eq_ok fun rule member =>
    (fires rule member).imp' (Activation.mk rule.id rule.conclusion) fun _ => And.left
  refine ⟨activations, walked, ?_⟩
  intro activation member
  obtain ⟨rule, listed, fired⟩ := exists_of_mem_mapM walked member
  obtain ⟨strength, alsoFired, satisfied⟩ := fires rule listed
  rw [fired, Except.ok.injEq] at alsoFired
  subst alsoFired
  exact ⟨(valid.rules rule listed).conclusion, satisfied⟩

variable [Complete α]

theorem degreeIn?_eq (degrees : Record α) (category : String) :
    degreeIn? degrees category
      = (degrees.get? category).or
          (if category = Record.reserved then some Number.absent else none) := by
  unfold degreeIn?
  cases degrees.get? category with
  | none => rfl
  | some degree => rw [Option.some_or]; exact if_pos (Complete.isGiven_eq degree)

theorem Condition.WellFormed.exists_degree {base : RuleBase α} {condition : Condition}
    (meaningful : condition.WellFormed base) {inputs : Fuzzified α} {values : Record α}
    (read : ∀ v ∈ base.inputs, inputs.Reads v values) :
    ∃ v ∈ base.inputs, ∃ value degree,
      (if condition.category = Record.reserved then degree = Number.absent
        else (v.read value).degrees.get? condition.category = some degree)
        ∧ condition.degree inputs.degrees
          = .ok (if condition.negated then 1 - degree else degree) := by
  obtain ⟨v, member, named, listed⟩ := meaningful
  obtain ⟨value, _, _, stored⟩ := read v member
  rw [named] at stored
  rw [← Record.isSome_get?_iff, Option.isSome_iff_exists] at listed
  obtain ⟨shape, listed⟩ := listed
  -- The degree that is looked up is the one recorded, unless it was lost.
  have looked : (v.read value).degrees.get? condition.category
      = if condition.category = Record.reserved then none
        else some (shape.degree (v.read value).value) := by
    show (v.degreesAt (v.read value).value).get? condition.category = _
    rw [Variable.get?_degreesAt, listed, Option.map_some]
  by_cases lost : condition.category = Record.reserved
  · refine ⟨v, member, value, Number.absent, by rw [if_pos lost], ?_⟩
    apply Condition.degree_of_degreeIn? stored
    rw [degreeIn?_eq, looked, if_pos lost, if_pos lost, Option.none_or]
  · refine ⟨v, member, value, _, by rw [if_neg lost, looked, if_neg lost], ?_⟩
    apply Condition.degree_of_degreeIn? stored
    rw [degreeIn?_eq, looked, if_neg lost, Option.some_or]

end Firing

/-- No condition of the rule asks for the category under the reserved key. -/
def Rule.Readable (rule : Rule) : Prop :=
  ∀ condition ∈ rule.conditions, condition.category ≠ Record.reserved

theorem RuleBase.WellFormed.condition_degree {base : RuleBase Exact} (valid : base.WellFormed)
    {inputs : Fuzzified Exact}
    {values : Record Exact} (read : ∀ v ∈ base.inputs, inputs.Reads v values)
    {condition : Condition} (meaningful : condition.WellFormed base) :
    ∃ degree, condition.degree inputs.degrees = .ok degree
      ∧ (condition.category = Record.reserved → degree = nan)
      ∧ (condition.category ≠ Record.reserved → IsDegree degree) := by
  obtain ⟨v, member, value, degree, found, result⟩ := meaningful.exists_degree read
  rw [result]
  refine ⟨_, rfl, ?_, ?_⟩
  · intro lost
    rw [if_pos lost] at found
    subst found
    cases condition.negated with
    | false => rfl
    | true => rfl
  · intro kept
    rw [if_neg kept] at found
    have isDegree := (valid.inputs v member).isDegree_read found
    cases condition.negated with
    | false => exact isDegree
    | true => exact isDegree.complement

/-- Its conclusion is a category of the output, and its strength, if it is a number, lies between 0
and 1. -/
def Activation.Sound (output : Output Exact) (activation : Activation Exact) : Prop :=
  activation.conclusion ∈ output.categories.keys ∧ IsStrength activation.strength

theorem Rule.activation_eq_ok_iff {rule : Rule} {degrees : Record (Record Exact)}
    {activation : Activation Exact} : rule.activation degrees = .ok activation
      ↔ ∃ strength, rule.strength degrees = .ok strength
        ∧ ⟨rule.id, rule.conclusion, strength⟩ = activation := map_eq_ok_iff

theorem Rule.ruleId_of_activation {rule : Rule} {degrees : Record (Record Exact)}
    {activation : Activation Exact} (fires : rule.activation degrees = .ok activation) :
    activation.ruleId = rule.id := by
  obtain ⟨strength, -, rfl⟩ := Rule.activation_eq_ok_iff.mp fires
  rfl

theorem foldl_least_of_nan {xs : List Exact} (lost : nan ∈ xs) (weakest : Exact) :
    xs.foldl Number.least weakest = nan := by
  have stays (ys : List Exact) : ys.foldl Number.least nan = nan := by
    induction ys with
    | nil => rfl
    | cons y rest ih => rwa [List.foldl_cons, least_nan_left]
  induction xs generalizing weakest with
  | nil => cases lost
  | cons x rest ih =>
      rw [List.foldl_cons]
      rcases List.mem_cons.mp lost with rfl | later
      · rw [least_nan_right, stays]
      · exact ih later _

/-- The strength of a rule is a degree if the rule asks only for what is recorded, and no number if
it does not. -/
theorem RuleBase.WellFormed.strength_graded {base : RuleBase Exact} (valid : base.WellFormed)
    {inputs : Fuzzified Exact} {values : Record Exact}
    (read : ∀ v ∈ base.inputs, inputs.Reads v values) {rule : Rule} (member : rule ∈ base.rules)
    {strength : Exact} (fires : rule.strength inputs.degrees = .ok strength) :
    (rule.Readable → IsDegree strength) ∧ (¬ rule.Readable → strength = nan) := by
  have meaningful := (valid.rules rule member).conditions
  constructor
  · intro readable
    obtain ⟨other, alsoFires, isDegree⟩ := exists_foldlM_least IsDegree.least
      (fun condition listed => by
        obtain ⟨degree, found, -, kept⟩ := valid.condition_degree read (meaningful _ listed)
        exact ⟨degree, found, kept (readable condition listed)⟩) isDegree_one
    rw [Rule.strength, alsoFires, Except.ok.injEq] at fires
    rwa [← fires]
  · intro unreadable
    rw [Rule.strength_eq] at fires
    obtain ⟨found, walked, rfl⟩ := map_eq_ok_iff.mp fires
    obtain ⟨condition, listed, reserved⟩ : ∃ condition ∈ rule.conditions,
        condition.category = Record.reserved := by
      simpa only [Rule.Readable, not_forall, not_not, exists_prop] using unreadable
    -- That condition reads no number, which no later degree makes up for.
    obtain ⟨degree, own, lost, -⟩ := valid.condition_degree read (meaningful _ listed)
    obtain ⟨x, taken, alsoOwn⟩ := exists_mem_of_mapM walked listed
    rw [own, lost reserved, Except.ok.injEq] at alsoOwn
    exact foldl_least_of_nan (alsoOwn ▸ taken) 1

theorem map_ruleId_of_activationsOf {rules : List Rule} {degrees : Record (Record Exact)}
    {activations : List (Activation Exact)}
    (walked : activationsOf rules degrees = .ok activations) :
    activations.map Activation.ruleId = rules.map Rule.id := by
  have pairs := (mapM_eq_ok_iff _ _ _).mp walked
  induction pairs with
  | nil => rfl
  | cons fires _ ih =>
      rw [List.map_cons, List.map_cons, Rule.ruleId_of_activation fires,
        ih ((mapM_eq_ok_iff _ _ _).mpr ‹_›)]

theorem RuleBase.WellFormed.exists_activations {base : RuleBase Exact}
    (valid : base.WellFormed) {inputs : Fuzzified Exact}
    {values : Record Exact} (read : ∀ v ∈ base.inputs, inputs.Reads v values) :
    ∃ activations, activationsOf base.rules inputs.degrees = .ok activations
      ∧ activations.map Activation.ruleId = base.rules.map Rule.id
      ∧ ∀ activation ∈ activations, activation.Sound base.output := by
  have each : ∀ rule ∈ base.rules, ∀ condition ∈ rule.conditions,
      ∃ degree, condition.degree inputs.degrees = .ok degree ∧ IsStrength degree := by
    intro rule member condition listed
    obtain ⟨degree, found, lost, kept⟩ :=
      valid.condition_degree read ((valid.rules rule member).conditions condition listed)
    exact ⟨degree, found, (em _).imp lost kept⟩
  obtain ⟨activations, walked, sound⟩ :=
    valid.exists_fired (.inr isDegree_one) IsStrength.least each
  exact ⟨activations, walked, map_ruleId_of_activationsOf walked, sound⟩

end Fuzzy
end RuleAdvisor
