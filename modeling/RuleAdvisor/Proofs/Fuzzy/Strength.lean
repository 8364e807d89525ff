import RuleAdvisor.Proofs.Fuzzy.Firing

/-!
The strength of a rule in terms of what is recorded. It is the smallest of the degrees of the
conditions, each the degree recorded for a category or, for a negated condition, what that is short
of 1. And the names under which a rule base records anything are those of its inputs.
-/

namespace RuleAdvisor

theorem Record.keys_perm {β : Type} {record : Record β} {names : List String}
    (distinct : names.Nodup) (nothingElse : ∀ name ∉ names, record.get? name = none)
    (each : ∀ name ∈ names, ∃ value, record.get? name = some value) :
    record.keys.Perm names := by
  refine (List.perm_ext_iff_of_nodup record.distinct distinct).mpr fun name => ?_
  show name ∈ record.keys ↔ name ∈ names
  rw [← Record.isSome_get?_iff, Option.isSome_iff_exists]
  constructor
  · rintro ⟨value, stored⟩
    by_contra missing
    rw [nothingElse name missing] at stored
    cases stored
  · exact each name

namespace Fuzzy

open Exact

/-- Under the variable and its category a degree is recorded, and `x` is that degree or, if the
condition is negated, what it is short of 1. -/
def Condition.HasDegree (condition : Condition) (degrees : Record (Record Exact)) (x : Exact) :
    Prop :=
  ∃ categories degree, degrees.get? condition.variableName = some categories
    ∧ categories.get? condition.category = some degree
    ∧ x = if condition.negated then 1 - degree else degree

theorem Condition.degree_eq_ok_iff {condition : Condition}
    (kept : condition.category ≠ Record.reserved) (degrees : Record (Record Exact)) (x : Exact) :
    condition.degree degrees = .ok x ↔ condition.HasDegree degrees x := by
  unfold Condition.degree Condition.HasDegree
  cases listed : degrees.get? condition.variableName with
  | none => simp
  | some categories =>
      rw [Option.bind_some, degreeIn?_eq, if_neg kept, Option.or_none]
      cases found : categories.get? condition.category with
      | none => simp [found]
      | some degree =>
          simp only [Except.ok.injEq, Option.some.injEq]
          constructor
          · rintro rfl
            exact ⟨categories, degree, rfl, found, rfl⟩
          · rintro ⟨_, other, rfl, alsoFound, rfl⟩
            rw [found, Option.some_inj] at alsoFound
            rw [alsoFound]

theorem foldl_least_rat (start : Rat) (qs : List Rat) :
    (qs.map rat).foldl Number.least (rat start) = rat (qs.foldl min start) := by
  induction qs generalizing start with
  | nil => rfl
  | cons q rest ih => rw [List.map_cons, List.foldl_cons, least_rat, ih, List.foldl_cons]

/-- Of one degree or more, folded from 1, the smallest is left, and it is one of them. -/
theorem foldl_least_one {xs : List Exact} (present : xs ≠ []) (degrees : ∀ x ∈ xs, IsDegree x) :
    xs.foldl Number.least 1 ∈ xs ∧ ∀ x ∈ xs, xs.foldl Number.least 1 ≤ x := by
  obtain ⟨qs, rfl⟩ := Exact.exists_map_rat fun x member =>
    ((isDegree_iff x).mp (degrees x member)).imp fun _ => And.left
  have smallest : (1 :: qs).min? = some (qs.foldl min (1 : Rat)) := List.min?_cons'
  obtain ⟨among, least⟩ := List.min?_eq_some_iff.mp smallest
  have folded : (qs.map rat).foldl Number.least 1 = rat (qs.foldl min 1) := by
    rw [literal_eq, Nat.cast_one, foldl_least_rat]
  have atMostOne : ∀ q ∈ qs, q ≤ 1 := fun q member =>
    ((isDegree_rat q).mp (degrees _ (List.mem_map_of_mem member))).2
  have attained : qs.foldl min 1 ∈ qs := by
    rcases List.mem_cons.mp among with one | member
    -- If 1 is the smallest, every degree is 1.
    · obtain ⟨q, member⟩ := List.exists_mem_of_ne_nil qs fun none => present (by rw [none]; rfl)
      have above := least q (List.mem_cons_of_mem _ member)
      rw [one] at above ⊢
      rwa [le_antisymm above (atMostOne q member)]
    · exact member
  rw [folded]
  refine ⟨List.mem_map_of_mem attained, ?_⟩
  intro x member
  obtain ⟨q, listed, rfl⟩ := List.mem_map.mp member
  exact (rat_le _ _).mpr (least q (List.mem_cons_of_mem _ listed))

/-- The strength is the degree of a condition, and no condition has a smaller one. -/
structure Rule.IsWeakest (rule : Rule) (degrees : Record (Record Exact)) (strength : Exact) :
    Prop where
  isDegree : IsDegree strength
  atMost : ∀ condition ∈ rule.conditions,
    ∃ degree, condition.HasDegree degrees degree ∧ strength ≤ degree
  attained : ∃ condition ∈ rule.conditions, condition.HasDegree degrees strength

theorem Rule.isWeakest_of_strength {rule : Rule} {degrees : Record (Record Exact)}
    {strength : Exact} (conditional : rule.conditions ≠ []) (readable : rule.Readable)
    (each : ∀ condition ∈ rule.conditions, ∀ degree, condition.degree degrees = .ok degree →
      IsDegree degree) (fires : rule.strength degrees = .ok strength) :
    rule.IsWeakest degrees strength := by
  rw [Rule.strength_eq] at fires
  obtain ⟨found, walked, rfl⟩ := map_eq_ok_iff.mp fires
  have isDegree : ∀ x ∈ found, IsDegree x := by
    intro x member
    obtain ⟨condition, listed, own⟩ := exists_of_mem_mapM walked member
    exact each condition listed x own
  -- Without a condition the 1 that the walk starts from would be left over.
  have present : found ≠ [] := by
    obtain ⟨condition, listed⟩ := List.exists_mem_of_ne_nil _ conditional
    obtain ⟨x, member, -⟩ := exists_mem_of_mapM walked listed
    exact List.ne_nil_of_mem member
  obtain ⟨attained, least⟩ := foldl_least_one present isDegree
  constructor
  case isDegree => exact isDegree _ attained
  case atMost =>
    intro condition listed
    obtain ⟨x, member, own⟩ := exists_mem_of_mapM walked listed
    exact ⟨x, (Condition.degree_eq_ok_iff (readable condition listed) degrees x).mp own,
      least x member⟩
  case attained =>
    obtain ⟨condition, listed, own⟩ := exists_of_mem_mapM walked attained
    exact ⟨condition, listed,
      (Condition.degree_eq_ok_iff (readable condition listed) degrees _).mp own⟩

/-- Under the name of the variable stand a value in its domain and the degrees of these categories
of it, and of nothing else, at that value. -/
def Fuzzified.Reports (inputs : Fuzzified Exact) (v : Variable Exact) (categories : List String) :
    Prop :=
  ∃ value degrees, inputs.values.get? v.name = some value
    ∧ inputs.degrees.get? v.name = some degrees
    ∧ v.domain.least ≤ value ∧ value ≤ v.domain.greatest
    ∧ degrees.keys = categories
    ∧ ∀ category ∈ categories, ∃ shape, v.categories.get? category = some shape
      ∧ degrees.get? category = some (shape.degree value)

theorem Variable.mem_recorded {α : Type} {v : Variable α} {category : String} :
    category ∈ v.recorded ↔ category ∈ v.categories.keys ∧ category ≠ Record.reserved := by
  rw [recorded, List.mem_filter, bne_iff_ne]

theorem Variable.recorded_eq_iff {α : Type} (v : Variable α) :
    v.recorded = v.categories.keys ↔ Record.reserved ∉ v.categories.keys := by
  rw [recorded, List.filter_eq_self]
  simp only [bne_iff_ne]
  exact ⟨fun kept listed => kept _ listed rfl, fun missing _ listed same => missing (same ▸ listed)⟩

theorem Variable.WellFormed.reports_of_reads {v : Variable Exact} (valid : v.WellFormed)
    {inputs : Fuzzified Exact} {values : Record Exact} (read : inputs.Reads v values) :
    inputs.Reports v v.recorded := by
  obtain ⟨value, _, underValue, underDegrees⟩ := read
  obtain ⟨above, below⟩ := valid.read_within value
  refine ⟨_, _, underValue, underDegrees, above, below, v.keys_degreesAt _, ?_⟩
  intro category listed
  obtain ⟨named, kept⟩ := Variable.mem_recorded.mp listed
  rw [← Record.isSome_get?_iff, Option.isSome_iff_exists] at named
  obtain ⟨shape, found⟩ := named
  refine ⟨shape, found, ?_⟩
  show (v.degreesAt (v.read value).value).get? category = _
  rw [Variable.get?_degreesAt, if_neg kept, found, Option.map_some]

theorem Fuzzified.Reports.all_iff {inputs : Fuzzified Exact} {v : Variable Exact}
    (reports : inputs.Reports v v.recorded) :
    inputs.Reports v v.categories.keys ↔ Record.reserved ∉ v.categories.keys := by
  rw [← v.recorded_eq_iff]
  refine ⟨?_, fun same => same ▸ reports⟩
  rintro ⟨_, degrees, _, underDegrees, _, _, keys, _⟩
  obtain ⟨_, others, _, alsoUnderDegrees, _, _, recorded, _⟩ := reports
  rw [underDegrees, Option.some_inj] at alsoUnderDegrees
  rw [← keys, ← recorded, alsoUnderDegrees]

theorem RuleBase.WellFormed.keys_fuzzify {base : RuleBase Exact} (valid : base.WellFormed)
    {values : Record Exact}
    (supplied : ∀ v ∈ base.inputs, ∃ value, values.get? v.name = some value)
    {inputs : Fuzzified Exact} (fuzzified : base.fuzzify values = .ok inputs) :
    inputs.values.keys.Perm (base.inputs.map Variable.name)
      ∧ inputs.degrees.keys.Perm (base.inputs.map Variable.name) := by
  have distinct := (List.nodup_cons.mp valid.names).2
  obtain ⟨result, read, holds, unchanged⟩ :=
    exists_foldlM_addReading distinct supplied ⟨.empty, .empty⟩
  obtain rfl : result = inputs := Except.ok.inj (read.symm.trans fuzzified)
  constructor
  · apply Record.keys_perm distinct fun name missing => (unchanged name missing).1
    intro name listed
    obtain ⟨v, member, rfl⟩ := List.mem_map.mp listed
    obtain ⟨_, _, underValue, _⟩ := holds v member
    exact ⟨_, underValue⟩
  · apply Record.keys_perm distinct fun name missing => (unchanged name missing).2
    intro name listed
    obtain ⟨v, member, rfl⟩ := List.mem_map.mp listed
    obtain ⟨_, _, _, underDegrees⟩ := holds v member
    exact ⟨_, underDegrees⟩

end Fuzzy
end RuleAdvisor
