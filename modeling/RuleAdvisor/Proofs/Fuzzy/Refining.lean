import RuleAdvisor.Proofs.Fuzzy.Plotting

/-!
The mass below a traced curve is a sum over neighbouring samples. Along a line the share of a
stretch is the sum of the shares of its pieces, so samples that are added on a line change nothing:
the sum is the same over any positions between which the function is one.
-/

namespace RuleAdvisor.Fuzzy

open Exact

def Splits (share : Rat → Rat → Rat) (u w : Rat) : Prop :=
  ∀ x y z, u ≤ x → x ≤ y → y ≤ z → z ≤ w → share x z = share x y + share y z

section Stretches

variable {share : Rat → Rat → Rat}

theorem Splits.share_self {u w : Rat} (splits : Splits share u w) (ordered : u ≤ w) :
    share w w = 0 := by
  have twice := splits w w w ordered (le_refl w) (le_refl w) (le_refl w)
  linarith

theorem total_of_splits {u w : Rat} {xs : List Rat} (ascending : xs.Pairwise (· < ·))
    (starts : xs.head? = some u) (ends : xs.getLast? = some w) (splits : Splits share u w) :
    total share xs = share u w := by
  induction xs generalizing u with
  | nil => cases starts
  | cons first rest ih =>
      cases starts
      have ordered := le_getLast? ascending ends List.mem_cons_self
      cases rest with
      | nil =>
          cases ends
          exact (splits.share_self ordered).symm
      | cons second later =>
          obtain ⟨behind, restAscending⟩ := List.pairwise_cons.mp ascending
          have forward := (behind second List.mem_cons_self).le
          rw [List.getLast?_cons_cons] at ends
          have toEnd := le_getLast? restAscending ends List.mem_cons_self
          rw [total_cons_cons, ih restAscending rfl ends fun x y z lower => splits x y z
            (forward.trans lower), splits first second w (le_refl _) forward toEnd (le_refl _)]

theorem eq_singleton_of_ends {xs : List Rat} (ascending : xs.Pairwise (· < ·)) {x : Rat}
    (starts : xs.head? = some x) (ends : xs.getLast? = some x) : xs = [x] := by
  cases xs with
  | nil => cases starts
  | cons first rest =>
      cases starts
      cases rest with
      | nil => rfl
      | cons second later =>
          rw [List.getLast?_cons_cons] at ends
          have behind := (List.pairwise_cons.mp ascending).1 x (List.mem_of_getLast? ends)
          exact absurd behind (lt_irrefl x)

/-- A sum over many positions is the one over a few of them, if their stretches split. -/
theorem total_refined {fine coarse : List Rat} (fineAscending : fine.Pairwise (· < ·))
    (ascending : coarse.Pairwise (· ≤ ·)) (starts : fine.head? = coarse.head?)
    (ends : fine.getLast? = coarse.getLast?) (within : ∀ x ∈ coarse, x ∈ fine)
    (splits : ∀ pair ∈ adjacent coarse, Splits share pair.1 pair.2) :
    total share fine = total share coarse := by
  induction coarse generalizing fine with
  | nil => rw [List.head?_eq_none_iff.mp starts]
  | cons u rest ih =>
      cases rest with
      | nil => rw [eq_singleton_of_ends fineAscending starts ends]
      | cons w later =>
          -- The first stretch of the few positions is a front of the many.
          obtain ⟨front, back, rfl⟩ :=
            List.append_of_mem (within w (List.mem_cons_of_mem _ List.mem_cons_self))
          obtain ⟨fromU, restAscending⟩ := List.pairwise_cons.mp ascending
          obtain ⟨frontAscending, backAscending, before⟩ := List.pairwise_append.mp fineAscending
          have first : total share (front ++ [w]) = share u w := by
            have frontStarts : (front ++ [w]).head? = some u := by
              rw [List.head?_append, List.head?_cons] at starts ⊢
              exact starts
            refine total_of_splits ?_ frontStarts List.getLast?_concat
              (splits (u, w) List.mem_cons_self)
            refine List.pairwise_append.mpr ⟨frontAscending, List.pairwise_singleton _ _, ?_⟩
            intro x early y late
            rw [List.mem_singleton.mp late]
            exact before x early w List.mem_cons_self
          have other : total share (w :: back) = total share (w :: later) := by
            refine ih backAscending restAscending rfl ?_ ?_ ?_
            · rw [List.getLast?_append_cons, List.getLast?_cons_cons] at ends
              exact ends
            · intro x listed
              rcases List.mem_append.mp (within x (List.mem_cons_of_mem _ listed)) with early | late
              · have below := before x early w List.mem_cons_self
                rcases List.mem_cons.mp listed with rfl | beyond
                · exact absurd below (lt_irrefl x)
                · have above := (List.pairwise_cons.mp restAscending).1 x beyond
                  exact absurd below (not_lt.mpr above)
              · exact late
            · exact fun pair neighbours => splits pair (List.mem_cons_of_mem _ neighbours)
          rw [total_append, first, other, total_cons_cons]

end Stretches

def areaBelow (f : Rat → Rat) (p q : Rat) : Rat := (q - p) * (f p + f q) / 2

def momentBelow (f : Rat → Rat) (p q : Rat) : Rat :=
  (q - p) * (f p * (2 * p + q) + f q * (p + 2 * q)) / 6

theorem Straight.areaBelow_splits {f : Rat → Rat} {u w : Rat} (straight : Straight u w f) :
    Splits (areaBelow f) u w := by
  obtain ⟨start, slope, onLine⟩ := straight
  intro x y z lower first second upper
  simp only [areaBelow]
  rw [onLine x lower (first.trans (second.trans upper)),
    onLine y (lower.trans first) (second.trans upper),
    onLine z (lower.trans (first.trans second)) upper]
  ring

theorem Straight.momentBelow_splits {f : Rat → Rat} {u w : Rat} (straight : Straight u w f) :
    Splits (momentBelow f) u w := by
  obtain ⟨start, slope, onLine⟩ := straight
  intro x y z lower first second upper
  simp only [momentBelow]
  rw [onLine x lower (first.trans (second.trans upper)),
    onLine y (lower.trans first) (second.trans upper),
    onLine z (lower.trans (first.trans second)) upper]
  ring

theorem traced_eq_plotted (f : Rat → Rat) (positions : List Rat) :
    traced f positions = plotted (positions.map fun x => (x, f x)) := by
  rw [plotted, List.map_map]
  rfl

theorem mass_traced {f : Rat → Rat} (nonneg : ∀ x, 0 ≤ f x) {positions : List Rat}
    (ascending : positions.Pairwise (· < ·)) :
    (traced f positions).mass
      = ⟨rat (total (areaBelow f) positions), rat (total (momentBelow f) positions)⟩ := by
  have rightward : Rightward (positions.map fun x => (x, f x)) := by
    constructor
    case ordered =>
      rw [List.pairwise_map]
      exact ascending.imp le_of_lt
    case nonneg =>
      intro point listed
      obtain ⟨x, _, rfl⟩ := List.mem_map.mp listed
      exact nonneg x
  rw [traced_eq_plotted, rightward.mass_plotted, total_map fun _ _ => rfl,
    total_map fun _ _ => rfl]
  rfl

end RuleAdvisor.Fuzzy
