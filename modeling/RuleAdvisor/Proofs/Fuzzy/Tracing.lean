import Mathlib.Order.Bounds.Basic
import Mathlib.Tactic.FieldSimp
import RuleAdvisor.Proofs.Fuzzy.Area
import RuleAdvisor.Proofs.Fuzzy.Outline

/-!
Curves that are traced from a function. Between two neighbouring samples such a curve follows the
chord, so for a function that is the highest of several lines there it lies on the function or
above it, and on it throughout exactly if one and the same line is highest at both samples.
-/

namespace RuleAdvisor.Fuzzy

open Exact

def chord (p q m n x : Rat) : Rat := ((q - x) * m + (x - p) * n) / (q - p)

section Chord

variable {p q x : Rat}

theorem chord_start (wide : p < q) (m n : Rat) : chord p q m n p = m := by
  rw [chord, sub_self, zero_mul, add_zero, mul_div_cancel_left₀ _ (sub_pos.mpr wide).ne']

theorem chord_end (wide : p < q) (m n : Rat) : chord p q m n q = n := by
  rw [chord, sub_self, zero_mul, zero_add, mul_div_cancel_left₀ _ (sub_pos.mpr wide).ne']

theorem chord_mono (wide : p < q) (lower : p ≤ x) (upper : x ≤ q) {m n m' n' : Rat}
    (first : m ≤ m') (second : n ≤ n') : chord p q m n x ≤ chord p q m' n' x := by
  have width := sub_pos.mpr wide
  have fromStart := mul_le_mul_of_nonneg_left first (sub_nonneg.mpr upper)
  have toEnd := mul_le_mul_of_nonneg_left second (sub_nonneg.mpr lower)
  exact div_le_div_of_nonneg_right (add_le_add fromStart toEnd) width.le

theorem chord_middle (wide : p < q) (m n : Rat) : chord p q m n ((p + q) / 2) = (m + n) / 2 := by
  have width : q - p ≠ 0 := (sub_pos.mpr wide).ne'
  rw [chord, div_eq_iff width]
  ring

theorem Straight.eq_chord {f : Rat → Rat} (straight : Straight p q f) (wide : p < q)
    (lower : p ≤ x) (upper : x ≤ q) : f x = chord p q (f p) (f q) x := by
  obtain ⟨start, slope, onLine⟩ := straight
  rw [chord, eq_div_iff (sub_pos.mpr wide).ne', onLine x lower upper,
    onLine p (le_refl p) wide.le, onLine q wide.le (le_refl q)]
  ring

theorem degreeTowards_rat (wide : p < q) (m n : Rat) :
    Sample.degreeTowards (⟨rat p, rat m⟩ : Sample Exact) ⟨rat q, rat n⟩ (rat x)
      = rat (chord p q m n x) := by
  have width : q - p ≠ 0 := (sub_pos.mpr wide).ne'
  simp only [Sample.degreeTowards, rat_sub, rat_mul]
  rw [rat_div _ width, rat_add, chord]
  congr 1
  field_simp
  ring

end Chord

theorem adjacent_map {β γ : Type} (f : β → γ) (xs : List β) :
    adjacent (xs.map f) = (adjacent xs).map (Prod.map f f) := by
  rw [adjacent, adjacent, ← List.map_tail, List.zip_map]

section Ascending

variable {xs : List Rat}

theorem lt_of_mem_adjacent (ascending : xs.Pairwise (· < ·)) {pair : Rat × Rat}
    (member : pair ∈ adjacent xs) : pair.1 < pair.2 :=
  rel_of_mem_adjacent ascending.isChain member

theorem outside_of_mem_adjacent (ascending : xs.Pairwise (· < ·)) {p q : Rat}
    (member : (p, q) ∈ adjacent xs) {x : Rat} (listed : x ∈ xs) : q ≤ x ∨ x ≤ p := by
  induction xs with
  | nil => cases member
  | cons first rest ih =>
      obtain ⟨behind, restAscending⟩ := List.pairwise_cons.mp ascending
      cases rest with
      | nil => cases member
      | cons second later =>
          rcases List.mem_cons.mp member with here | deeper
          · cases here
            rcases List.mem_cons.mp listed with rfl | beyond
            · exact .inr (le_refl x)
            · rcases List.mem_cons.mp beyond with rfl | last
              · exact .inl (le_refl x)
              · exact .inl ((List.pairwise_cons.mp restAscending).1 x last).le
          · rcases List.mem_cons.mp listed with rfl | inRest
            · exact .inr (behind p (mem_of_mem_adjacent deeper).1).le
            · exact ih restAscending deeper inRest

theorem head?_le (ascending : xs.Pairwise (· < ·)) {first x : Rat} (starts : xs.head? = some first)
    (listed : x ∈ xs) : first ≤ x := by
  cases xs with
  | nil => cases starts
  | cons head rest =>
      cases starts
      rcases List.mem_cons.mp listed with rfl | later
      · exact le_refl _
      · exact ((List.pairwise_cons.mp ascending).1 x later).le

/-- Of two pairs of neighbours the first ends before the second starts, or where it starts. -/
theorem pairwise_adjacent (ascending : xs.Pairwise (· < ·)) :
    (adjacent xs).Pairwise fun before after => before.2 ≤ after.1 := by
  induction xs with
  | nil => exact .nil
  | cons first rest ih =>
      obtain ⟨-, restAscending⟩ := List.pairwise_cons.mp ascending
      cases rest with
      | nil => exact .nil
      | cons second later =>
          refine List.pairwise_cons.mpr ⟨fun pair member => ?_, ih restAscending⟩
          exact head?_le restAscending rfl (mem_of_mem_adjacent member).1

theorem le_getLast? (ascending : xs.Pairwise (· < ·)) {last x : Rat}
    (ends : xs.getLast? = some last) (listed : x ∈ xs) : x ≤ last := by
  obtain ⟨earlier, rfl⟩ := List.getLast?_eq_some_iff.mp ends
  rcases List.mem_append.mp listed with before | here
  · exact ((List.pairwise_append.mp ascending).2.2 x before last (List.mem_singleton_self _)).le
  · exact (List.mem_singleton.mp here).le

theorem head?_eq_of_le (ascending : xs.Pairwise (· < ·)) {first : Rat} (listed : first ∈ xs)
    (least : ∀ x ∈ xs, first ≤ x) : xs.head? = some first := by
  cases xs with
  | nil => cases listed
  | cons head rest =>
      have below := head?_le ascending rfl listed
      have above := least head List.mem_cons_self
      rw [List.head?_cons, le_antisymm below above]

theorem getLast?_eq_of_le (ascending : xs.Pairwise (· < ·)) {last : Rat} (listed : last ∈ xs)
    (greatest : ∀ x ∈ xs, x ≤ last) : xs.getLast? = some last := by
  obtain ⟨final, ends⟩ := Option.isSome_iff_exists.mp
    (List.getLast?_isSome.mpr (List.ne_nil_of_mem listed))
  have above := le_getLast? ascending ends listed
  have below := greatest final (List.mem_of_getLast? ends)
  rw [ends, le_antisymm below above]

theorem exists_adjacent_around {first last : Rat} (starts : xs.head? = some first)
    (ends : xs.getLast? = some last) (long : first < last) {x : Rat} (lower : first ≤ x)
    (upper : x ≤ last) : ∃ p q, (p, q) ∈ adjacent xs ∧ p ≤ x ∧ x ≤ q := by
  induction xs generalizing first with
  | nil => cases starts
  | cons head rest ih =>
      cases starts
      cases rest with
      | nil =>
          cases ends
          exact absurd long (lt_irrefl _)
      | cons second later =>
          rw [List.getLast?_cons_cons] at ends
          rcases le_or_gt x second with before | beyond
          · exact ⟨head, second, List.mem_cons_self, lower, before⟩
          · obtain ⟨p, q, member, around⟩ :=
              ih rfl ends (beyond.trans_le upper) beyond.le
            exact ⟨p, q, List.mem_cons_of_mem _ member, around⟩

theorem exists_adjacent_between (ascending : xs.Pairwise (· < ·)) {u v x : Rat} (listed : u ∈ xs)
    (alsoListed : v ∈ xs) (long : u < v) (lower : u ≤ x) (upper : x ≤ v) :
    ∃ p q, (p, q) ∈ adjacent xs ∧ p ≤ x ∧ x ≤ q := by
  have filled := List.ne_nil_of_mem listed
  have starts := List.head?_eq_some_head filled
  have ends := List.getLast?_eq_some_getLast filled
  have fromStart := head?_le ascending starts listed
  have toEnd := le_getLast? ascending ends alsoListed
  exact exists_adjacent_around starts ends (fromStart.trans_lt (long.trans_le toEnd))
    (fromStart.trans lower) (upper.trans toEnd)

end Ascending

def traced (f : Rat → Rat) (positions : List Rat) : Curve Exact :=
  positions.map fun x => ⟨rat x, rat (f x)⟩

theorem adjacent_traced (f : Rat → Rat) (positions : List Rat) :
    adjacent (traced f positions) = (adjacent positions).map fun pair =>
      (⟨rat pair.1, rat (f pair.1)⟩, ⟨rat pair.2, rat (f pair.2)⟩) :=
  adjacent_map _ positions

/-- Between two neighbours the curve follows their chord. -/
theorem degreeAt?_traced {positions : List Rat} (ascending : positions.Pairwise (· < ·))
    (f : Rat → Rat) {p q x : Rat} (neighbours : (p, q) ∈ adjacent positions) (lower : p ≤ x)
    (upper : x ≤ q) :
    (traced f positions).degreeAt? (rat x) = some (rat (chord p q (f p) (f q) x)) := by
  rw [Curve.degreeAt?, adjacent_traced, List.findSome?_map]
  induction positions with
  | nil => cases neighbours
  | cons first rest ih =>
      obtain ⟨behind, restAscending⟩ := List.pairwise_cons.mp ascending
      cases rest with
      | nil => cases neighbours
      | cons second later =>
          have wide := behind second List.mem_cons_self
          have unfolded : adjacent (first :: second :: later)
              = (first, second) :: adjacent (second :: later) := rfl
          rw [unfolded, List.findSome?_cons]
          simp only [Function.comp_apply, rat_le, degreeTowards_rat wide]
          rcases List.mem_cons.mp neighbours with here | deeper
          · cases here
            rw [if_pos ⟨lower, upper⟩]
          · have narrow := lt_of_mem_adjacent restAscending deeper
            have fromSecond : second ≤ p := by
              rcases List.mem_cons.mp (mem_of_mem_adjacent deeper).1 with rfl | beyond
              · exact le_refl _
              · exact ((List.pairwise_cons.mp restAscending).1 p beyond).le
            by_cases early : first ≤ x ∧ x ≤ second
            -- Where two pairs meet, both give the degree of their common sample.
            · obtain rfl : x = second := le_antisymm early.2 (fromSecond.trans lower)
              obtain rfl : x = p := le_antisymm lower fromSecond |>.symm
              rw [if_pos early, chord_end wide, chord_start narrow]
            · rw [if_neg early]
              exact ih restAscending deeper

def highest (gs : List (Rat → Rat)) (x : Rat) : Rat := (gs.map fun g => g x).foldl max 0

theorem foldl_max_isGreatest (values : List Rat) (start : Rat) :
    IsGreatest {y | y = start ∨ y ∈ values} (values.foldl max start) := by
  induction values generalizing start with
  | nil => exact ⟨.inl rfl, fun y member => member.elim le_of_eq (fun absent => nomatch absent)⟩
  | cons value rest ih =>
      obtain ⟨attained, bound⟩ := ih (max start value)
      rw [List.foldl_cons]
      constructor
      · rcases attained with same | later
        · rw [same]
          rcases max_choice start value with startWins | valueWins
          · rw [startWins]
            exact .inl rfl
          · rw [valueWins]
            exact .inr List.mem_cons_self
        · exact .inr (List.mem_cons_of_mem _ later)
      · have atLeast : max start value ≤ rest.foldl max (max start value) := bound (.inl rfl)
        rintro y (rfl | listed)
        · exact (le_max_left _ _).trans atLeast
        · rcases List.mem_cons.mp listed with rfl | later
          · exact (le_max_right _ _).trans atLeast
          · exact bound (.inr later)

section Highest

variable {gs : List (Rat → Rat)}

theorem highest_isGreatest (gs : List (Rat → Rat)) (x : Rat) :
    IsGreatest {y | y = 0 ∨ ∃ g ∈ gs, g x = y} (highest gs x) := by
  have greatest := foldl_max_isGreatest (gs.map fun g => g x) 0
  simpa only [highest, List.mem_map] using greatest

theorem highest_nonneg (gs : List (Rat → Rat)) (x : Rat) : 0 ≤ highest gs x :=
  (highest_isGreatest gs x).2 (.inl rfl)

theorem le_highest {g : Rat → Rat} (listed : g ∈ gs) (x : Rat) : g x ≤ highest gs x :=
  (highest_isGreatest gs x).2 (.inr ⟨g, listed, rfl⟩)

variable {p q : Rat} (wide : p < q) (straight : ∀ g ∈ gs, Straight p q g)

include wide straight

theorem highest_le_chord {x : Rat} (lower : p ≤ x) (upper : x ≤ q) :
    highest gs x ≤ chord p q (highest gs p) (highest gs q) x := by
  rcases (highest_isGreatest gs x).1 with bottom | ⟨g, listed, top⟩
  · rw [bottom]
    have flat : chord p q 0 0 x = 0 := by simp [chord]
    rw [← flat]
    exact chord_mono wide lower upper (highest_nonneg gs p) (highest_nonneg gs q)
  · rw [← top, (straight g listed).eq_chord wide lower upper]
    exact chord_mono wide lower upper (le_highest listed p) (le_highest listed q)

/-- The highest of several lines is a line itself exactly if one of them is highest at both ends,
or none is above 0 there. -/
theorem highest_eq_chord_iff :
    (∀ x, p ≤ x → x ≤ q → highest gs x = chord p q (highest gs p) (highest gs q) x)
      ↔ (highest gs p = 0 ∧ highest gs q = 0)
        ∨ ∃ g ∈ gs, g p = highest gs p ∧ g q = highest gs q := by
  constructor
  · intro onChord
    -- What is highest in the middle, where it is half of both ends, falls short of neither.
    have middle := onChord ((p + q) / 2) (by linarith) (by linarith)
    rw [chord_middle wide] at middle
    rcases (highest_isGreatest gs ((p + q) / 2)).1 with bottom | ⟨g, listed, top⟩
    · have atP := highest_nonneg gs p
      have atQ := highest_nonneg gs q
      left
      constructor <;> linarith
    · have onLine : g ((p + q) / 2) = chord p q (g p) (g q) ((p + q) / 2) :=
        (straight g listed).eq_chord wide (by linarith) (by linarith)
      rw [chord_middle wide] at onLine
      have atP := le_highest listed p
      have atQ := le_highest listed q
      right
      refine ⟨g, listed, ?_, ?_⟩ <;> linarith
  · rintro shared x lower upper
    apply le_antisymm (highest_le_chord wide straight lower upper)
    rcases shared with ⟨atP, atQ⟩ | ⟨g, listed, atP, atQ⟩
    · rw [atP, atQ]
      simpa [chord] using highest_nonneg gs x
    · rw [← atP, ← atQ, ← (straight g listed).eq_chord wide lower upper]
      exact le_highest listed x

end Highest

/-- The positions lead from one end to the other, and between neighbours all functions are lines. -/
structure Traces (first last : Rat) (gs : List (Rat → Rat)) (positions : List Rat) : Prop where
  ascending : positions.Pairwise (· < ·)
  starts : positions.head? = some first
  ends : positions.getLast? = some last
  long : first < last
  straight : ∀ pair ∈ adjacent positions, ∀ g ∈ gs, Straight pair.1 pair.2 g

namespace Traces

variable {first last : Rat} {gs : List (Rat → Rat)} {positions : List Rat}
  (traces : Traces first last gs positions)

include traces

theorem exists_degree {x : Rat} (lower : first ≤ x) (upper : x ≤ last) :
    ∃ y, (traced (highest gs) positions).degreeAt? (rat x) = some (rat y) ∧ highest gs x ≤ y := by
  obtain ⟨p, q, neighbours, fromP, toQ⟩ :=
    exists_adjacent_around traces.starts traces.ends traces.long lower upper
  have wide := lt_of_mem_adjacent traces.ascending neighbours
  exact ⟨_, degreeAt?_traced traces.ascending _ neighbours fromP toQ,
    highest_le_chord wide (traces.straight _ neighbours) fromP toQ⟩

/-- The curve is what it is traced from exactly if at any two neighbours one and the same function
is highest, or none is above 0. -/
theorem exact_iff :
    (∀ x, first ≤ x → x ≤ last →
        (traced (highest gs) positions).degreeAt? (rat x) = some (rat (highest gs x)))
      ↔ ∀ pair ∈ adjacent positions, (highest gs pair.1 = 0 ∧ highest gs pair.2 = 0)
        ∨ ∃ g ∈ gs, g pair.1 = highest gs pair.1 ∧ g pair.2 = highest gs pair.2 := by
  have onPair (pair : Rat × Rat) (neighbours : pair ∈ adjacent positions) :=
    highest_eq_chord_iff (lt_of_mem_adjacent traces.ascending neighbours)
      (traces.straight pair neighbours)
  constructor
  · rintro exact ⟨p, q⟩ neighbours
    obtain ⟨atP, atQ⟩ := mem_of_mem_adjacent neighbours
    have lower := head?_le traces.ascending traces.starts atP
    have upper := le_getLast? traces.ascending traces.ends atQ
    refine (onPair _ neighbours).mp fun x fromP toQ => ?_
    have onCurve := exact x (lower.trans fromP) (toQ.trans upper)
    rw [degreeAt?_traced traces.ascending _ neighbours fromP toQ, Option.some_inj] at onCurve
    exact (rat.inj onCurve).symm
  · intro shared x lower upper
    obtain ⟨p, q, neighbours, fromP, toQ⟩ :=
      exists_adjacent_around traces.starts traces.ends traces.long lower upper
    rw [degreeAt?_traced traces.ascending _ neighbours fromP toQ,
      (onPair _ neighbours).mpr (shared _ neighbours) x fromP toQ]

end Traces
end RuleAdvisor.Fuzzy
