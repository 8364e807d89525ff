import Mathlib.Data.List.Forall2
import Mathlib.Data.List.Perm.Basic

/-!
Lists walked through by a step that may be refused. The walk succeeds exactly if every step does,
and then its results are those of the steps, in their order.
-/

namespace RuleAdvisor

variable {ε β γ : Type}

theorem exists_of_mem_forall₂ {related : β → γ → Prop} {xs : List β} {ys : List γ}
    (pairs : List.Forall₂ related xs ys) {y : γ} (member : y ∈ ys) : ∃ x ∈ xs, related x y := by
  induction pairs with
  | nil => cases member
  | cons first _ ih =>
      rcases List.mem_cons.mp member with rfl | later
      · exact ⟨_, List.mem_cons_self, first⟩
      · obtain ⟨x, listed, holds⟩ := ih later
        exact ⟨x, List.mem_cons_of_mem _ listed, holds⟩

theorem exists_mem_of_forall₂ {related : β → γ → Prop} {xs : List β} {ys : List γ}
    (pairs : List.Forall₂ related xs ys) {x : β} (member : x ∈ xs) : ∃ y ∈ ys, related x y :=
  exists_of_mem_forall₂ pairs.flip member

theorem exists_forall₂ {related : β → γ → Prop} {xs : List β}
    (each : ∀ x ∈ xs, ∃ y, related x y) : ∃ ys, List.Forall₂ related xs ys := by
  induction xs with
  | nil => exact ⟨[], .nil⟩
  | cons x rest ih =>
      obtain ⟨y, first⟩ := each x List.mem_cons_self
      obtain ⟨ys, later⟩ := ih fun other member => each other (List.mem_cons_of_mem _ member)
      exact ⟨y :: ys, .cons first later⟩

theorem map_eq_error_iff {step : Except ε β} {f : β → γ} {refusal : ε} :
    step.map f = .error refusal ↔ step = .error refusal := by
  cases step <;> simp [Except.map]

theorem map_eq_ok_iff {step : Except ε β} {f : β → γ} {y : γ} :
    step.map f = .ok y ↔ ∃ x, step = .ok x ∧ f x = y := by
  cases step <;> simp [Except.map]

theorem mapM_eq_ok_iff (f : β → Except ε γ) (xs : List β) (ys : List γ) :
    xs.mapM f = .ok ys ↔ List.Forall₂ (fun x y => f x = .ok y) xs ys := by
  induction xs generalizing ys with
  | nil => cases ys <;> simp [pure, Except.pure]
  | cons x rest ih =>
      rw [List.mapM_cons]
      cases first : f x with
      | error refusal => cases ys <;> simp [bind, Except.bind, first]
      | ok y =>
          cases later : rest.mapM f with
          | error refusal => cases ys <;> simp [bind, Except.bind, ← ih, later]
          | ok results =>
              cases ys <;>
                simp [bind, Except.bind, pure, Except.pure, first, ← ih, later]

theorem exists_mapM_eq_ok {f : β → Except ε γ} {xs : List β}
    (each : ∀ x ∈ xs, ∃ y, f x = .ok y) : ∃ ys, xs.mapM f = .ok ys := by
  obtain ⟨ys, pairs⟩ := exists_forall₂ each
  exact ⟨ys, (mapM_eq_ok_iff f xs ys).mpr pairs⟩

theorem exists_of_mem_mapM {f : β → Except ε γ} {xs : List β} {ys : List γ}
    (walked : xs.mapM f = .ok ys) {y : γ} (member : y ∈ ys) : ∃ x ∈ xs, f x = .ok y :=
  exists_of_mem_forall₂ ((mapM_eq_ok_iff f xs ys).mp walked) member

theorem exists_mem_of_mapM {f : β → Except ε γ} {xs : List β} {ys : List γ}
    (walked : xs.mapM f = .ok ys) {x : β} (member : x ∈ xs) : ∃ y ∈ ys, f x = .ok y :=
  exists_mem_of_forall₂ ((mapM_eq_ok_iff f xs ys).mp walked) member

theorem exists_of_mapM_error {f : β → Except ε γ} {xs : List β} {refusal : ε}
    (refused : xs.mapM f = .error refusal) : ∃ x ∈ xs, f x = .error refusal := by
  induction xs with
  | nil => cases refused
  | cons x rest ih =>
      rw [List.mapM_cons] at refused
      cases first : f x with
      | error here =>
          simp only [bind, Except.bind, first, Except.error.injEq] at refused
          exact ⟨x, List.mem_cons_self, by rw [first, refused]⟩
      | ok y =>
          cases later : rest.mapM f with
          | error deeper =>
              simp only [bind, Except.bind, first, later, Except.error.injEq] at refused
              obtain ⟨other, listed, own⟩ := ih (by rw [later, refused])
              exact ⟨other, List.mem_cons_of_mem _ listed, own⟩
          | ok ys => simp [bind, Except.bind, pure, Except.pure, first, later] at refused

theorem exists_mapM_perm {f : β → Except ε γ} {xs others : List β} {ys : List γ}
    (order : xs.Perm others) (walked : xs.mapM f = .ok ys) :
    ∃ results, others.mapM f = .ok results ∧ ys.Perm results := by
  have pairs := (mapM_eq_ok_iff f xs ys).mp walked
  obtain ⟨results, otherPairs, sameResults⟩ := List.perm_comp_forall₂ order.symm pairs
  exact ⟨results, (mapM_eq_ok_iff f others results).mpr otherPairs, sameResults.symm⟩

theorem mapM_eq_ok_of_forall₂ {δ : Type} {f : β → Except ε γ} {g : δ → Except ε γ}
    {xs : List β} {others : List δ}
    (pairs : List.Forall₂ (fun x other => ∀ y, f x = .ok y → g other = .ok y) xs others)
    {ys : List γ} (walked : xs.mapM f = .ok ys) : others.mapM g = .ok ys := by
  rw [mapM_eq_ok_iff] at walked ⊢
  induction pairs generalizing ys with
  | nil =>
      cases walked
      exact .nil
  | cons same _ ih =>
      cases walked with
      | cons first later => exact .cons (same _ first) (ih later)

/-- A walk that combines the results as it goes is a walk that collects them, and a fold. -/
theorem foldlM_map_eq {f : β → Except ε γ} {combine : γ → γ → γ} (xs : List β) (start : γ) :
    xs.foldlM (fun state x => (f x).map (combine state)) start
      = (xs.mapM f).map fun results => results.foldl combine start := by
  induction xs generalizing start with
  | nil => rfl
  | cons x rest ih =>
      rw [List.foldlM_cons, List.mapM_cons]
      cases f x with
      | error refusal => rfl
      | ok y =>
          apply (ih (combine start y)).trans
          cases rest.mapM f <;> rfl

theorem foldlM_congr {σ : Type} {f g : σ → β → Except ε σ} {xs : List β}
    (same : ∀ x ∈ xs, ∀ state, f state x = g state x) (start : σ) :
    xs.foldlM f start = xs.foldlM g start := by
  induction xs generalizing start with
  | nil => rfl
  | cons x rest ih =>
      rw [List.foldlM_cons, List.foldlM_cons, same x List.mem_cons_self]
      congr 1
      funext next
      exact ih (fun other member => same other (List.mem_cons_of_mem _ member)) next

theorem mapM_congr {f g : β → Except ε γ} {xs : List β} (same : ∀ x ∈ xs, f x = g x) :
    xs.mapM f = xs.mapM g := by
  induction xs with
  | nil => rfl
  | cons x rest ih =>
      rw [List.mapM_cons, List.mapM_cons, same x List.mem_cons_self,
        ih fun other member => same other (List.mem_cons_of_mem _ member)]

end RuleAdvisor
