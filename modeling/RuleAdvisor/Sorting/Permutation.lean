import RuleAdvisor.Sorting.Runs

/-!
Sorting by runs loses no element and adds none, whatever the comparison is.
-/

namespace RuleAdvisor.Sorting

variable {α : Type}

namespace Joining

theorem takeFirst_perm (joining : Joining α) (count : Nat) :
    (joining.takeFirst count).result.Perm joining.result := by
  have split : joining.first
      = joining.first.take count ++ joining.first.drop count := by simp
  simp only [result, takeFirst, List.reverse_append, List.reverse_reverse, List.append_assoc]
  apply List.Perm.append_left _
  conv => rhs; rw [split]
  rw [← List.append_assoc, ← List.append_assoc]
  exact List.Perm.append_right _ List.perm_append_comm

theorem takeSecond_result (joining : Joining α) (count : Nat) :
    (joining.takeSecond count).result = joining.result := by
  simp [result, takeSecond]

theorem alternate_perm (ahead : α → α → Bool) (patience firstWins secondWins : Nat)
    (first second taken : List α) :
    (alternate ahead patience firstWins secondWins first second taken).result.Perm
      (result ⟨first, second, taken⟩) := by
  fun_induction alternate ahead patience firstWins secondWins first second taken with
  | case1 => simp [result]
  | case2 _ _ _ _ _ _ _ _ _ ih => exact ih.trans (by simp [result])
  | case3 _ _ f first s second taken => exact takeFirst_perm ⟨f :: first, s :: second, taken⟩ 1
  | case4 _ _ f first s second taken _ _ ih =>
      exact ih.trans (takeFirst_perm ⟨f :: first, s :: second, taken⟩ 1)
  | case5 => exact .refl _

theorem favourFirst_perm (side : Side) (before : α → α → Bool) (joining : Joining α) :
    (favourFirst side before joining).1.result.Perm joining.result := by
  unfold favourFirst
  split
  · exact .refl _
  · simp only
    split
    · rw [takeSecond_result]
      exact takeFirst_perm joining _
    · exact takeFirst_perm joining _

theorem favourSecond_perm (side : Side) (before : α → α → Bool) (joining : Joining α) :
    (favourSecond side before joining).1.result.Perm joining.result := by
  unfold favourSecond
  split
  · exact .refl _
  · simp only
    split
    · apply (takeFirst_perm _ 1).trans
      rw [takeSecond_result]
    · rw [takeSecond_result]

theorem favourBoth_perm (side : Side) (before : α → α → Bool) (joining : Joining α) :
    (favourBoth side before joining).1.result.Perm joining.result := by
  unfold favourBoth
  cases side with
  | front =>
      simp only
      split
      · exact (favourSecond_perm _ _ _).trans (favourFirst_perm _ _ _)
      · exact favourFirst_perm _ _ _
  | back =>
      simp only
      split
      · exact (favourFirst_perm _ _ _).trans (favourSecond_perm _ _ _)
      · exact favourSecond_perm _ _ _

theorem gallop_perm (side : Side) (before : α → α → Bool) (fuel patience : Nat)
    (joining : Joining α) :
    (gallop side before fuel patience joining).1.result.Perm joining.result := by
  induction fuel generalizing patience joining with
  | zero => exact .refl _
  | succ fuel ih =>
      have round := favourBoth_perm side before joining
      simp only [gallop]
      split
      · exact round
      · split
        · exact (ih _ _).trans round
        · exact round

theorem run_perm (side : Side) (before : α → α → Bool) (fuel patience : Nat)
    (joining : Joining α) :
    (run side before fuel patience joining).1.result.Perm joining.result := by
  induction fuel generalizing patience joining with
  | zero => exact .refl _
  | succ fuel ih =>
      have alternated := alternate_perm (side.ahead before) patience 0 0
        joining.first joining.second joining.taken
      simp only [run]
      split
      · exact .refl _
      · split
        · exact alternated
        · exact (ih _ _).trans ((gallop_perm _ _ _ _ _).trans alternated)

theorem joinFrom_perm (side : Side) (before : α → α → Bool) (patience : Nat)
    (left right : List α) :
    (joinFrom side before patience left right).1.Perm (left ++ right) := by
  cases side with
  | front =>
      apply (run_perm _ _ _ _ _).trans
      rw [takeSecond_result]
      simpa [result] using List.perm_append_comm
  | back =>
      refine (List.reverse_perm _).trans ((run_perm _ _ _ _ _).trans ?_)
      rw [takeSecond_result]
      simpa [result] using (List.reverse_perm left).append (List.reverse_perm right)

end Joining

theorem joinRuns_perm (before : α → α → Bool) (patience : Nat) (left right : List α) :
    (joinRuns before patience left right).1.Perm (left ++ right) := by
  unfold joinRuns
  simp only
  split
  · exact .refl _
  · apply List.Perm.trans (.append_right _ (.append_left _ (Joining.joinFrom_perm _ _ _ _ _)))
    rw [← List.append_assoc, List.take_append_drop, List.append_assoc, List.take_append_drop]

theorem foldl_insertBehind_perm (before : α → α → Bool) (sorted xs : List α) :
    (xs.foldl (insertBehind before) sorted).Perm (sorted ++ xs) := by
  induction xs generalizing sorted with
  | nil => simp
  | cons x xs ih =>
      exact (ih _).trans ((List.Perm.append_right xs (insertBehind_perm before sorted x)).trans
        List.perm_middle.symm)

theorem takeRun_perm (before : α → α → Bool) (least : Nat) (first : α) (rest : List α) :
    ((takeRun before least first rest).1 ++ (takeRun before least first rest).2).Perm
      (first :: rest) := by
  have whole := splitChain_append
    (fun a b => before b a == rest.head?.any fun second => before second first) first rest
  simp only [takeRun]
  apply List.Perm.trans (.append_right _ (foldl_insertBehind_perm _ _ _))
  rw [List.append_assoc, List.take_append_drop]
  conv => rhs; rw [← whole, ← List.cons_append]
  apply List.Perm.append_right _
  split
  · exact List.reverse_perm _
  · exact .refl _

namespace Waiting

theorem join_perm (before : α → α → Bool) (waiting : Waiting α) (joint : Joint) :
    (waiting.join before joint).elements.Perm waiting.elements := by
  unfold join
  split
  · next right left older runs =>
      simp only [elements, runs, List.reverse_cons, List.flatten_append, List.flatten_singleton,
        List.append_assoc]
      exact .append_left _ (joinRuns_perm _ _ _ _)
  · next latest right left older runs =>
      simp only [elements, runs, List.reverse_cons, List.flatten_append, List.flatten_singleton,
        List.append_assoc]
      apply List.Perm.append_left _
      rw [← List.append_assoc]
      exact .append_right _ (joinRuns_perm _ _ _ _)
  · exact .refl _

theorem collapse_perm (before : α → α → Bool) (joint? : List Nat → Option Joint) (fuel : Nat)
    (waiting : Waiting α) :
    (collapse before joint? fuel waiting).elements.Perm waiting.elements := by
  induction fuel generalizing waiting with
  | zero => exact .refl _
  | succ fuel ih =>
      simp only [collapse]
      split
      · exact .refl _
      · exact (ih _).trans (join_perm before waiting _)

theorem push_perm (before : α → α → Bool) (waiting : Waiting α) (run : List α) :
    (waiting.push before run).elements.Perm (waiting.elements ++ run) := by
  apply (collapse_perm _ _ _ _).trans
  simp [elements]

theorem pushAll_perm (before : α → α → Bool) (least : Nat) (waiting : Waiting α) (xs : List α) :
    (pushAll before least waiting xs).elements.Perm (waiting.elements ++ xs) := by
  fun_induction pushAll before least waiting xs with
  | case1 => simp
  | case2 waiting first rest _ ih =>
      refine ih.trans ((List.Perm.append_right _ (push_perm _ _ _)).trans ?_)
      rw [List.append_assoc]
      exact .append_left _ (takeRun_perm before least first rest)

end Waiting

theorem byRuns_perm (before : α → α → Bool) (xs : List α) : (byRuns before xs).Perm xs :=
  (Waiting.collapse_perm _ _ _ _).trans (Waiting.pushAll_perm _ _ _ _)

end RuleAdvisor.Sorting
