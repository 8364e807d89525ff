import RuleAdvisor.Proofs.Fuzzy.Placement

/-!
Merged positions, and why they do not depend on how the positions were written down. Of all that is
given, positions are kept that are further than the tolerance apart, so that each position given has
one at most that far below it. There is only one way to keep positions so, and sorting finds it.
-/

namespace RuleAdvisor.Fuzzy

open Exact

/-- What is kept of the positions given, in ascending order. -/
structure Merges (given : Rat → Prop) (kept : List Rat) : Prop where
  taken : ∀ y ∈ kept, given y
  apart : kept.Pairwise fun earlier later => nearness < later - earlier
  near : ∀ x, given x → ∃ y ∈ kept, y ≤ x ∧ x - y ≤ nearness

namespace Merges

variable {given : Rat → Prop}

theorem ascending {kept : List Rat} (merges : Merges given kept) : kept.Pairwise (· < ·) :=
  merges.apart.imp fun further => sub_pos.mp (nearness_pos.trans further)

theorem eq_nil_of_nothing {kept : List Rat} (merges : Merges given kept)
    (nothing : ∀ x, ¬ given x) : kept = [] := by
  cases kept with
  | nil => rfl
  | cons first rest => exact absurd (merges.taken first List.mem_cons_self) (nothing first)

theorem nothing_of_nil (merges : Merges given []) (x : Rat) : ¬ given x := by
  intro present
  obtain ⟨y, member, _⟩ := merges.near x present
  cases member

variable {first : Rat} {rest : List Rat}

theorem first_le (merges : Merges given (first :: rest)) {x : Rat} (present : given x) :
    first ≤ x := by
  obtain ⟨y, member, below, _⟩ := merges.near x present
  rcases List.mem_cons.mp member with rfl | later
  · exact below
  · have behind := (List.pairwise_cons.mp merges.apart).1 y later
    linarith [nearness_pos]

theorem head?_eq {kept : List Rat} (merges : Merges given kept) {least : Rat}
    (present : given least) (lowest : ∀ x, given x → least ≤ x) : kept.head? = some least := by
  cases kept with
  | nil => exact absurd present (merges.nothing_of_nil least)
  | cons first rest =>
      have above := lowest first (merges.taken first List.mem_cons_self)
      rw [List.head?_cons, le_antisymm (merges.first_le present) above]

/-- The other positions kept merge what lies beyond the reach of the first. -/
theorem rest_merges (merges : Merges given (first :: rest)) :
    Merges (fun x => given x ∧ nearness < x - first) rest := by
  obtain ⟨behind, apart⟩ := List.pairwise_cons.mp merges.apart
  constructor
  case taken =>
    intro y member
    exact ⟨merges.taken y (List.mem_cons_of_mem _ member), behind y member⟩
  case apart => exact apart
  case near =>
    rintro x ⟨present, beyond⟩
    obtain ⟨y, member, below, close⟩ := merges.near x present
    rcases List.mem_cons.mp member with rfl | later
    · exact absurd close (not_le.mpr beyond)
    · exact ⟨y, later, below, close⟩

theorem unique {one other : List Rat} (first : Merges given one) (second : Merges given other) :
    one = other := by
  induction one generalizing given other with
  | nil => exact (second.eq_nil_of_nothing first.nothing_of_nil).symm
  | cons x rest ih =>
      cases other with
      | nil => exact absurd (first.taken x List.mem_cons_self) (second.nothing_of_nil x)
      | cons y later =>
          have same : x = y := le_antisymm
            (first.first_le (second.taken y List.mem_cons_self))
            (second.first_le (first.taken x List.mem_cons_self))
          subst same
          rw [ih first.rest_merges second.rest_merges]

theorem mem_iff {kept : List Rat} (merges : Merges given kept)
    (apart : ∀ x y, given x → given y → x = y ∨ nearness < |x - y|) (x : Rat) :
    x ∈ kept ↔ given x := by
  refine ⟨merges.taken x, fun present => ?_⟩
  obtain ⟨y, member, below, near⟩ := merges.near x present
  rcases apart x y present (merges.taken y member) with rfl | further
  · exact member
  · rw [abs_of_nonneg (sub_nonneg.mpr below)] at further
    exact absurd near (not_le.mpr further)

end Merges

theorem sortPositions_rat (xs : List Rat) :
    sortPositions (xs.map rat) = (xs.mergeSort fun a b => decide (a ≤ b)).map rat := by
  have numbers : (xs.map rat).any Number.isNaN = false := by
    simp
  simp only [sortPositions, partition_isGiven, numbers, Bool.false_eq_true, if_false,
    List.append_nil]
  symm
  apply List.map_mergeSort
  intro a _ b _
  simp only [rat_lt, ← decide_not, not_lt]

theorem ascending_mergeSort (xs : List Rat) :
    (xs.mergeSort fun a b => decide (a ≤ b)).Pairwise (· ≤ ·) := by
  have sorted : (xs.mergeSort fun a b => decide (a ≤ b)).Pairwise
      fun a b => decide (a ≤ b) = true :=
    List.pairwise_mergeSort
      (fun a b c => by simpa using fun below above => below.trans above)
      (fun a b => by simpa using le_total a b) xs
  simpa using sorted

theorem Merges.snoc_near {given : Rat → Prop} {kept : List Rat} (merges : Merges given kept)
    {last x : Rat} (member : last ∈ kept) (below : last ≤ x) (close : x - last ≤ nearness) :
    Merges (fun y => given y ∨ y = x) kept := by
  constructor
  case taken => exact fun y inKept => .inl (merges.taken y inKept)
  case apart => exact merges.apart
  case near =>
    rintro y (present | rfl)
    · exact merges.near y present
    · exact ⟨last, member, below, close⟩

theorem Merges.snoc_beyond {given : Rat → Prop} {kept : List Rat} (merges : Merges given kept)
    {x : Rat} (beyond : ∀ y ∈ kept, nearness < x - y) :
    Merges (fun y => given y ∨ y = x) (kept ++ [x]) := by
  constructor
  case taken =>
    intro y member
    rcases List.mem_append.mp member with inKept | last
    · exact .inl (merges.taken y inKept)
    · exact .inr (List.mem_singleton.mp last)
  case apart =>
    rw [List.pairwise_append]
    refine ⟨merges.apart, List.pairwise_singleton _ _, ?_⟩
    intro y inKept z last
    rw [List.mem_singleton.mp last]
    exact beyond y inKept
  case near =>
    rintro y (present | rfl)
    · obtain ⟨z, inKept, below, close⟩ := merges.near y present
      exact ⟨z, List.mem_append_left _ inKept, below, close⟩
    · exact ⟨y, List.mem_append_right _ (List.mem_singleton_self y), le_refl y, by
        rw [sub_self]; exact nearness_pos.le⟩

/-- One position more, not below any before it, is kept or has the last one kept near it. What is
kept stands in reverse. -/
theorem exists_keepApart_rat {given : Rat → Prop} {kept : List Rat}
    (merges : Merges given kept.reverse) {x : Rat} (highest : ∀ y, given y → y ≤ x) :
    ∃ next : List Rat, keepApart (kept.map rat) (rat x) = next.map rat
      ∧ Merges (fun y => given y ∨ y = x) next.reverse := by
  -- The last one kept stands at the head, and nothing before it can be nearer.
  cases kept with
  | nil => exact ⟨[x], rfl, merges.snoc_beyond fun y member => by cases member⟩
  | cons last earlier =>
      have apart := merges.apart
      rw [List.reverse_cons, List.pairwise_append] at apart
      simp only [keepApart, List.map_cons, tolerance_eq, rat_sub, rat_lt]
      split
      · next further =>
          refine ⟨x :: last :: earlier, rfl, ?_⟩
          rw [List.reverse_cons]
          apply merges.snoc_beyond
          intro y member
          rw [List.reverse_cons, List.mem_append, List.mem_singleton] at member
          rcases member with before | rfl
          · have behind := apart.2.2 y before last (List.mem_singleton_self last)
            linarith [nearness_pos]
          · exact further
      · next close =>
          have member : last ∈ (last :: earlier).reverse := by simp
          exact ⟨last :: earlier, rfl, merges.snoc_near member
            (highest last (merges.taken last member)) (not_lt.mp close)⟩

theorem exists_foldl_keepApart_rat {given : Rat → Prop} {kept xs : List Rat}
    (merges : Merges given kept.reverse) (ascending : xs.Pairwise (· ≤ ·))
    (highest : ∀ y, given y → ∀ x ∈ xs, y ≤ x) :
    ∃ next : List Rat, (xs.map rat).foldl keepApart (kept.map rat) = next.map rat
      ∧ Merges (fun y => given y ∨ y ∈ xs) next.reverse := by
  induction xs generalizing given kept with
  | nil => exact ⟨kept, rfl, by simpa using merges⟩
  | cons x rest ih =>
      obtain ⟨least, restAscending⟩ := List.pairwise_cons.mp ascending
      obtain ⟨next, step, nextMerges⟩ :=
        exists_keepApart_rat merges fun y present => highest y present x List.mem_cons_self
      have restHighest : ∀ y, given y ∨ y = x → ∀ z ∈ rest, y ≤ z := by
        rintro y (present | rfl) z member
        · exact highest y present z (List.mem_cons_of_mem _ member)
        · exact least z member
      obtain ⟨final, folded, finalMerges⟩ := ih nextMerges restAscending restHighest
      refine ⟨final, ?_, ?_⟩
      · rw [List.map_cons, List.foldl_cons, step]
        exact folded
      · simpa only [List.mem_cons, or_assoc] using finalMerges

theorem exists_mergePositions_rat (xs extra : List Rat) :
    ∃ kept : List Rat, mergePositions (xs.map rat) (extra.map rat) = kept.map rat
      ∧ Merges (fun x => x ∈ xs ∨ x ∈ extra) kept := by
  have start : Merges (fun _ => False) ([] : List Rat).reverse :=
    ⟨by simp, .nil, by simp⟩
  obtain ⟨kept, folded, merges⟩ := exists_foldl_keepApart_rat start
    (ascending_mergeSort (xs ++ extra)) fun y absent => absurd absent (not_false)
  refine ⟨kept.reverse, ?_, ?_⟩
  · rw [mergePositions, ← List.map_append, sortPositions_rat, List.map_reverse]
    exact congrArg List.reverse folded
  · simpa only [List.mem_mergeSort, List.mem_append, false_or] using merges

theorem mergePositions_congr {grid extra others : List Exact}
    (onGrid : ∀ x ∈ grid, ∃ q, x = rat q) (rational : ∀ x ∈ extra, ∃ q, x = rat q)
    (same : ∀ x, x ∈ extra ↔ x ∈ others) :
    mergePositions grid extra = mergePositions grid others := by
  obtain ⟨qs, rfl⟩ := exists_map_rat onGrid
  obtain ⟨rs, rfl⟩ := exists_map_rat rational
  obtain ⟨ss, rfl⟩ := exists_map_rat fun x member => rational x ((same x).mpr member)
  have sameRational (q : Rat) : q ∈ rs ↔ q ∈ ss := by
    simpa using same (rat q)
  obtain ⟨kept, merged, merges⟩ := exists_mergePositions_rat qs rs
  obtain ⟨other, otherMerged, otherMerges⟩ := exists_mergePositions_rat qs ss
  simp only [sameRational] at merges
  rw [merged, otherMerged, merges.unique otherMerges]

theorem Merges.head?_eq_some_iff {given : Rat → Prop} {kept : List Rat}
    (merges : Merges given kept) (least : Rat) :
    kept.head? = some least ↔ IsLeast {x | given x} least := by
  constructor
  · intro starts
    cases kept with
    | nil => cases starts
    | cons first rest =>
        obtain rfl : first = least := Option.some.inj starts
        exact ⟨merges.taken first List.mem_cons_self, fun _ present => merges.first_le present⟩
  · rintro ⟨present, lowest⟩
    exact merges.head?_eq present fun x also => lowest also

theorem Merges.self {given : Rat → Prop} {kept again : List Rat} (merges : Merges given kept)
    (known : again ⊆ kept) : Merges (fun x => x ∈ kept ∨ x ∈ again) kept where
  taken _ member := .inl member
  apart := merges.apart
  near x present := by
    have member : x ∈ kept := present.elim id fun old => known old
    exact ⟨x, member, le_refl x, by rw [sub_self]; exact nearness_pos.le⟩

/-- Two lists are merged into positions further than the tolerance apart, in ascending order from
the least on, that leave none of those given further above one than the tolerance. Lists with the
same positions among them, however ordered, repeated and shared out, are merged alike, and a merge
takes nothing from positions it has kept. -/
theorem merge_is_union (xs extra : List Rat) :
    ∃ kept : List Rat, mergePositions (xs.map rat) (extra.map rat) = kept.map rat
      ∧ kept.Pairwise (· < ·)
      ∧ Merges (fun x => x ∈ xs ∨ x ∈ extra) kept
      ∧ (∀ least, kept.head? = some least ↔ IsLeast {x | x ∈ xs ∨ x ∈ extra} least)
      ∧ (∀ others more : List Rat,
        (∀ x, x ∈ others ∨ x ∈ more ↔ x ∈ xs ∨ x ∈ extra) →
          mergePositions (others.map rat) (more.map rat) = kept.map rat)
      ∧ ∀ again : List Rat, again ⊆ kept →
        mergePositions (kept.map rat) (again.map rat) = kept.map rat := by
  obtain ⟨kept, merged, merges⟩ := exists_mergePositions_rat xs extra
  refine ⟨kept, merged, merges.ascending, merges, merges.head?_eq_some_iff, ?_, ?_⟩
  · intro others more same
    obtain ⟨found, otherMerged, otherMerges⟩ := exists_mergePositions_rat others more
    simp only [same] at otherMerges
    rw [otherMerged, otherMerges.unique merges]
  · intro again known
    obtain ⟨found, mergedAgain, mergesAgain⟩ := exists_mergePositions_rat kept again
    rw [mergedAgain, mergesAgain.unique (merges.self known)]

/-- A position is dropped for the one before it, and does not keep out the one behind it. -/
theorem merge_is_union_close :
    let xs : List Rat := [12 / 10 ^ 10, 0]
    let extra : List Rat := [6 / 10 ^ 10, 0]
    let merged := mergePositions (xs.map rat) (extra.map rat)
    merged = [rat 0, rat (12 / 10 ^ 10)]
      ∧ mergePositions (extra.map rat) (xs.map rat) = merged
      ∧ mergePositions merged [rat 0] = merged := by
  intro xs extra merged
  obtain ⟨kept, found, -, merges, -, alike, again⟩ := merge_is_union xs extra
  have close : Merges (fun x => x ∈ xs ∨ x ∈ extra) [0, 12 / 10 ^ 10] := by
    constructor
    case taken => simp [xs, extra]
    case apart => norm_num [nearness]
    case near =>
      simp only [xs, extra, List.mem_cons, List.not_mem_nil, or_false]
      rintro x ((rfl | rfl) | (rfl | rfl)) <;> norm_num [nearness]
  obtain rfl : kept = [0, 12 / 10 ^ 10] := merges.unique close
  have swapped := alike extra xs fun x => or_comm
  have unchanged := again [0] (by simp)
  exact ⟨found, swapped.trans found.symm, (congrArg (mergePositions · _) found).trans
    (unchanged.trans found.symm)⟩

end RuleAdvisor.Fuzzy
