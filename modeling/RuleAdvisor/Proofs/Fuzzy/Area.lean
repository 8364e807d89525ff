import RuleAdvisor.Proofs.Fuzzy.Placement

/-!
The area below a sampled curve. Its moment lies between the area times the least position and the
area times the greatest, and is neither of the two if there is an area, so the centroid lies
strictly among the positions. Where neighbours are apart there is an area exactly if there are two
samples and one of them is above 0.
-/

namespace RuleAdvisor.Fuzzy

open Exact

def Sample.Sound (least greatest : Rat) (sample : Sample Exact) : Prop :=
  Within least greatest sample.position ∧ IsDegree sample.degree

theorem Sample.Sound.exists_rat {least greatest : Rat} {sample : Sample Exact}
    (sound : sample.Sound least greatest) :
    ∃ p m, sample = ⟨rat p, rat m⟩ ∧ least ≤ p ∧ p ≤ greatest ∧ 0 ≤ m ∧ m ≤ 1 := by
  obtain ⟨position, degree⟩ := sample
  obtain ⟨⟨p, rfl, least, greatest⟩, between⟩ := sound
  obtain ⟨m, rfl, nonneg, atMostOne⟩ := (isDegree_iff _).mp between
  exact ⟨p, m, rfl, least, greatest, nonneg, atMostOne⟩

namespace Mass

variable {least greatest : Rat}

/-- A rational area with its moment: what has its centroid strictly between the bounds, or
nothing. -/
def Centred (least greatest : Rat) (mass : Mass Exact) : Prop :=
  ∃ area moment, mass = ⟨rat area, rat moment⟩ ∧ 0 ≤ area
    ∧ least * area ≤ moment ∧ moment ≤ greatest * area
    ∧ (0 < area → least * area < moment ∧ moment < greatest * area)

theorem zero_eq : (zero : Mass Exact) = ⟨rat 0, rat 0⟩ := by
  simp [zero]

theorem centred_zero : (zero : Mass Exact).Centred least greatest :=
  ⟨0, 0, zero_eq, by simp⟩

theorem add_pos_iff_of_nonneg {m n : Rat} (nonneg : 0 ≤ m) (alsoNonneg : 0 ≤ n) :
    0 < m + n ↔ 0 < m ∨ 0 < n := by
  constructor
  · intro positive
    by_contra neither
    rw [not_or, not_lt, not_lt] at neither
    linarith
  · rintro (positive | positive)
    · exact add_pos_of_pos_of_nonneg positive alsoNonneg
    · exact add_pos_of_nonneg_of_pos nonneg positive

theorem Centred.add {first second : Mass Exact} (one : first.Centred least greatest)
    (other : second.Centred least greatest) : (first.add second).Centred least greatest := by
  obtain ⟨area, moment, rfl, nonneg, lower, upper, inside⟩ := one
  obtain ⟨extra, turn, rfl, alsoNonneg, alsoLower, alsoUpper, alsoInside⟩ := other
  refine ⟨area + extra, moment + turn, rfl, add_nonneg nonneg alsoNonneg, ?_, ?_, ?_⟩
  · rw [mul_add]
    exact add_le_add lower alsoLower
  · rw [mul_add]
    exact add_le_add upper alsoUpper
  · intro positive
    rw [mul_add, mul_add]
    rcases (add_pos_iff_of_nonneg nonneg alsoNonneg).mp positive with first | second
    · obtain ⟨above, below⟩ := inside first
      exact ⟨add_lt_add_of_lt_of_le above alsoLower, add_lt_add_of_lt_of_le below alsoUpper⟩
    · obtain ⟨above, below⟩ := alsoInside second
      exact ⟨add_lt_add_of_le_of_lt lower above, add_lt_add_of_le_of_lt upper below⟩

/-- The centroid of a trapezoid lies strictly between its ends, even where one of them has no
height. -/
theorem share_between {p q m n : Rat} (nonneg : 0 ≤ m) (alsoNonneg : 0 ≤ n)
    (height : 0 < m + n) (wide : p < q) :
    p < p + (m + 2 * n) / (3 * (m + n)) * (q - p)
      ∧ p + (m + 2 * n) / (3 * (m + n)) * (q - p) < q := by
  have width : 0 < q - p := sub_pos.mpr wide
  have whole : 0 < 3 * (m + n) := by positivity
  have forward : 0 < (m + 2 * n) / (3 * (m + n)) := div_pos (by linarith) whole
  have short : (m + 2 * n) / (3 * (m + n)) < 1 := by
    rw [div_lt_one whole]
    linarith
  constructor
  · exact lt_add_of_pos_right p (mul_pos forward width)
  · linarith [mul_lt_mul_of_pos_right short width]

theorem height_pos {m n : Rat} (nonneg : 0 ≤ m) (alsoNonneg : 0 ≤ n)
    (notFlat : ¬ (m = 0 ∧ n = 0)) : 0 < m + n := by
  rw [← add_eq_zero_iff_of_nonneg nonneg alsoNonneg] at notFlat
  exact lt_of_le_of_ne (add_nonneg nonneg alsoNonneg) (Ne.symm notFlat)

theorem below_rat {p q m n : Rat} (nonneg : 0 ≤ m) (alsoNonneg : 0 ≤ n) :
    below ⟨rat p, rat m⟩ ⟨rat q, rat n⟩
      = if q ≤ p ∨ (m = 0 ∧ n = 0) then zero
        else
          let area := 1 / 2 * (q - p) * (m + n)
          ⟨rat area, rat (area * (p + (m + 2 * n) / (3 * (m + n)) * (q - p)))⟩ := by
  simp only [below, literal_eq, half_eq, rat_sub, rat_add, rat_mul, rat_le, rat_beq,
    decide_eq_true_eq, Nat.cast_zero, sub_nonpos, Nat.cast_ofNat]
  split
  · rfl
  · next visible =>
      have height := height_pos nonneg alsoNonneg (not_or.mp visible).2
      rw [rat_div _ (by positivity), rat_add, rat_mul, mul_div_assoc, mul_comm (q - p)]

theorem below_centred_rat {p q m n : Rat} (nonneg : 0 ≤ m) (alsoNonneg : 0 ≤ n)
    (within : p < q → 0 < m + n → least ≤ p ∧ q ≤ greatest) :
    (below ⟨rat p, rat m⟩ ⟨rat q, rat n⟩).Centred least greatest := by
  rw [below_rat nonneg alsoNonneg]
  split
  · exact centred_zero
  · next visible =>
      obtain ⟨wide, notFlat⟩ := not_or.mp visible
      have height := height_pos nonneg alsoNonneg notFlat
      have width : 0 < q - p := sub_pos.mpr (not_le.mp wide)
      obtain ⟨leastP, greatestQ⟩ := within (not_le.mp wide) height
      have area : 0 < 1 / 2 * (q - p) * (m + n) := by positivity
      obtain ⟨above, below⟩ := share_between nonneg alsoNonneg height (not_le.mp wide)
      have lower := mul_lt_mul_of_pos_left (leastP.trans_lt above) area
      have upper := mul_lt_mul_of_pos_left (below.trans_le greatestQ) area
      rw [mul_comm _ least] at lower
      rw [mul_comm _ greatest] at upper
      exact ⟨_, _, rfl, area.le, lower.le, upper.le, fun _ => ⟨lower, upper⟩⟩

theorem below_centred {left right : Sample Exact} (first : left.Sound least greatest)
    (second : right.Sound least greatest) : (below left right).Centred least greatest := by
  obtain ⟨p, m, rfl, leastP, _, nonneg, _⟩ := first.exists_rat
  obtain ⟨q, n, rfl, _, greatestQ, alsoNonneg, _⟩ := second.exists_rat
  exact below_centred_rat nonneg alsoNonneg fun _ _ => ⟨leastP, greatestQ⟩

theorem below_area_pos_rat {p q m n : Rat} (nonneg : 0 ≤ m) (alsoNonneg : 0 ≤ n) :
    0 < (below ⟨rat p, rat m⟩ ⟨rat q, rat n⟩).area ↔ p < q ∧ (0 < m ∨ 0 < n) := by
  rw [below_rat nonneg alsoNonneg]
  simp only [literal_eq, Nat.cast_zero]
  split
  · next invisible =>
      rw [zero_eq, rat_lt, iff_false_left (lt_irrefl 0), not_and]
      intro wide
      have flat := invisible.resolve_left (not_le.mpr wide)
      simp [flat.1, flat.2]
  · next visible =>
      obtain ⟨wide, notFlat⟩ := not_or.mp visible
      have height := height_pos nonneg alsoNonneg notFlat
      have width : 0 < q - p := sub_pos.mpr (not_le.mp wide)
      have area : 0 < 1 / 2 * (q - p) * (m + n) := by positivity
      rw [rat_lt]
      exact iff_of_true area
        ⟨not_le.mp wide, (add_pos_iff_of_nonneg nonneg alsoNonneg).mp height⟩

theorem below_area_pos_iff {left right : Sample Exact} (first : left.Sound least greatest)
    (second : right.Sound least greatest) (wide : left.position < right.position) :
    0 < (below left right).area ↔ 0 < left.degree ∨ 0 < right.degree := by
  obtain ⟨p, m, rfl, _, _, nonneg, _⟩ := first.exists_rat
  obtain ⟨q, n, rfl, _, _, alsoNonneg, _⟩ := second.exists_rat
  rw [rat_lt] at wide
  rw [below_area_pos_rat nonneg alsoNonneg, and_iff_right wide, rat_pos, rat_pos]

theorem Centred.add_area_pos_iff {first second : Mass Exact} (one : first.Centred least greatest)
    (other : second.Centred least greatest) :
    0 < (first.add second).area ↔ 0 < first.area ∨ 0 < second.area := by
  obtain ⟨area, moment, rfl, nonneg, _⟩ := one
  obtain ⟨extra, turn, rfl, alsoNonneg, _⟩ := other
  simp only [Mass.add, rat_add, literal_eq, rat_lt, Nat.cast_zero]
  exact add_pos_iff_of_nonneg nonneg alsoNonneg

theorem below_answering_rat (byZero : Exact → Exact) {p q m n : Rat} (nonneg : 0 ≤ m)
    (alsoNonneg : 0 ≤ n) :
    @below Exact (answering byZero) ⟨rat p, rat m⟩ ⟨rat q, rat n⟩
      = below ⟨rat p, rat m⟩ ⟨rat q, rat n⟩ := by
  unfold below
  simp only [literal_eq, half_eq, rat_sub, rat_add, rat_mul, rat_le, rat_beq,
    decide_eq_true_eq, Nat.cast_zero, sub_nonpos, Nat.cast_ofNat]
  split
  · rfl
  · next visible =>
      have height := height_pos nonneg alsoNonneg (not_or.mp visible).2
      have divisor : 3 * (m + n) ≠ 0 := by positivity
      rw [answering_ratio byZero _ divisor]

theorem below_answering (byZero : Exact → Exact) {left right : Sample Exact}
    (first : left.Sound least greatest) (second : right.Sound least greatest) :
    @below Exact (answering byZero) left right = below left right := by
  obtain ⟨p, m, rfl, _, _, nonneg, _⟩ := first.exists_rat
  obtain ⟨q, n, rfl, _, _, alsoNonneg, _⟩ := second.exists_rat
  exact below_answering_rat byZero nonneg alsoNonneg

end Mass

theorem rel_of_mem_adjacent {β : Type} {related : β → β → Prop} {xs : List β}
    (chained : xs.IsChain related) {pair : β × β} (member : pair ∈ adjacent xs) :
    related pair.1 pair.2 := by
  induction chained with
  | nil => cases member
  | singleton x => cases member
  | cons_cons first _ ih =>
      rcases List.mem_cons.mp member with rfl | later
      · exact first
      · exact ih later

theorem exists_adjacent_iff {β : Type} (xs : List β) (property : β → Prop) :
    (∃ pair ∈ adjacent xs, property pair.1 ∨ property pair.2)
      ↔ 2 ≤ xs.length ∧ ∃ x ∈ xs, property x := by
  induction xs with
  | nil => simp [adjacent]
  | cons first rest ih =>
      cases rest with
      | nil => simp [adjacent]
      | cons second later =>
          -- The first element has the second beside it; the others have their neighbours in the
          -- rest.
          have unfolded : adjacent (first :: second :: later)
              = (first, second) :: adjacent (second :: later) := rfl
          have long : 2 ≤ (first :: second :: later).length := by simp
          rw [unfolded, and_iff_right long, List.exists_mem_cons_iff, ih,
            List.exists_mem_cons_iff property first]
          constructor
          · rintro ((here | next) | ⟨_, inRest⟩)
            · exact .inl here
            · exact .inr ⟨second, List.mem_cons_self, next⟩
            · exact .inr inRest
          · rintro (here | ⟨x, member, holds⟩)
            · exact .inl (.inl here)
            · rcases List.mem_cons.mp member with rfl | deeper
              · exact .inl (.inr holds)
              · refine .inr ⟨?_, x, member, holds⟩
                have inLater := List.length_pos_of_mem deeper
                rw [List.length_cons]
                omega

namespace Curve

variable {least greatest : Rat} {curve : Curve Exact}

theorem foldl_centred {pairs : List (Sample Exact × Sample Exact)} {start : Mass Exact}
    (centred : start.Centred least greatest)
    (each : ∀ pair ∈ pairs, (Mass.below pair.1 pair.2).Centred least greatest) :
    (pairs.foldl (fun total pair => total.add (Mass.below pair.1 pair.2)) start).Centred
      least greatest := by
  induction pairs generalizing start with
  | nil => exact centred
  | cons pair rest ih =>
      exact ih (centred.add (each pair List.mem_cons_self))
        fun other member => each other (List.mem_cons_of_mem _ member)

theorem neighbours_sound (sound : ∀ sample ∈ curve, sample.Sound least greatest)
    {pair : Sample Exact × Sample Exact} (member : pair ∈ adjacent curve) :
    pair.1.Sound least greatest ∧ pair.2.Sound least greatest := by
  obtain ⟨first, second⟩ := mem_of_mem_adjacent member
  exact ⟨sound _ first, sound _ second⟩

theorem neighbours_centred (sound : ∀ sample ∈ curve, sample.Sound least greatest) :
    ∀ pair ∈ adjacent curve, (Mass.below pair.1 pair.2).Centred least greatest := by
  intro pair member
  obtain ⟨first, second⟩ := neighbours_sound sound member
  exact Mass.below_centred first second

theorem mass_centred (sound : ∀ sample ∈ curve, sample.Sound least greatest) :
    curve.mass.Centred least greatest :=
  foldl_centred Mass.centred_zero (neighbours_centred sound)

theorem centroid?_eq {area moment : Rat} (total : curve.mass = ⟨rat area, rat moment⟩)
    (solid : 0 < area) : curve.centroid? = some (rat (moment / area)) := by
  simp only [centroid?, total, literal_eq, rat_le, Nat.cast_zero, not_le.mpr solid, if_false]
  rw [rat_div _ solid.ne']

theorem centroid?_strictly_between (centred : curve.mass.Centred least greatest) {x : Exact}
    (found : curve.centroid? = some x) : ∃ q, x = rat q ∧ least < q ∧ q < greatest := by
  obtain ⟨area, moment, total, _, _, _, inside⟩ := centred
  simp only [centroid?, total, literal_eq, rat_le, Nat.cast_zero] at found
  split at found
  · cases found
  · next solid =>
      have positive : 0 < area := not_le.mp solid
      rw [rat_div _ positive.ne', Option.some_inj] at found
      refine ⟨moment / area, found.symm, ?_⟩
      rw [lt_div_iff₀ positive, div_lt_iff₀ positive]
      exact inside positive

theorem centroid?_between (sound : ∀ sample ∈ curve, sample.Sound least greatest) {x : Exact}
    (found : curve.centroid? = some x) : ∃ q, x = rat q ∧ least < q ∧ q < greatest :=
  centroid?_strictly_between (mass_centred sound) found

theorem centroid?_within (sound : ∀ sample ∈ curve, sample.Sound least greatest) {x : Exact}
    (found : curve.centroid? = some x) : Within least greatest x := by
  obtain ⟨q, rfl, above, below⟩ := centroid?_between sound found
  exact (within_rat _ _ _).mpr ⟨above.le, below.le⟩

theorem foldl_area_pos_iff {pairs : List (Sample Exact × Sample Exact)} {start : Mass Exact}
    (centred : start.Centred least greatest)
    (each : ∀ pair ∈ pairs, (Mass.below pair.1 pair.2).Centred least greatest) :
    0 < (pairs.foldl (fun total pair => total.add (Mass.below pair.1 pair.2)) start).area
      ↔ 0 < start.area ∨ ∃ pair ∈ pairs, 0 < (Mass.below pair.1 pair.2).area := by
  induction pairs generalizing start with
  | nil => simp
  | cons pair rest ih =>
      have here := each pair List.mem_cons_self
      have later : ∀ other ∈ rest, (Mass.below other.1 other.2).Centred least greatest :=
        fun other member => each other (List.mem_cons_of_mem _ member)
      rw [List.foldl_cons, ih (centred.add here) later, centred.add_area_pos_iff here, or_assoc,
        List.exists_mem_cons_iff]

theorem mass_area_pos_iff_exists
    (each : ∀ pair ∈ adjacent curve, (Mass.below pair.1 pair.2).Centred least greatest) :
    0 < curve.mass.area ↔ ∃ pair ∈ adjacent curve, 0 < (Mass.below pair.1 pair.2).area := by
  have nothing : ¬ 0 < (Mass.zero : Mass Exact).area := by
    simp [Mass.zero]
  rw [mass, foldl_area_pos_iff Mass.centred_zero each, or_iff_right nothing]

theorem isSome_centroid?_iff_area (centred : curve.mass.Centred least greatest) :
    curve.centroid?.isSome ↔ 0 < curve.mass.area := by
  obtain ⟨area, moment, total, _⟩ := centred
  simp only [centroid?, total, literal_eq, rat_le, rat_lt, Nat.cast_zero]
  split
  · next empty => simpa using empty
  · next solid => simpa using solid

theorem wide_of_apart (sound : ∀ sample ∈ curve, sample.Sound least greatest)
    (apart : Apart curve.positions) {pair : Sample Exact × Sample Exact}
    (member : pair ∈ adjacent curve) : pair.1.position < pair.2.position := by
  have behind : tolerance < pair.2.position - pair.1.position :=
    rel_of_mem_adjacent ((List.isChain_map _).mp apart) member
  obtain ⟨first, second⟩ := neighbours_sound sound member
  obtain ⟨p, atFirst, _⟩ := first.1
  obtain ⟨q, atSecond, _⟩ := second.1
  rw [atFirst, atSecond, rat_lt]
  rw [atFirst, atSecond, tolerance_eq, rat_sub, rat_lt] at behind
  linarith [nearness_pos]

theorem mass_area_pos_iff (sound : ∀ sample ∈ curve, sample.Sound least greatest)
    (apart : Apart curve.positions) :
    0 < curve.mass.area ↔ 2 ≤ curve.length ∧ ∃ sample ∈ curve, 0 < sample.degree := by
  rw [mass_area_pos_iff_exists (neighbours_centred sound), ← exists_adjacent_iff]
  apply exists_congr
  intro pair
  apply and_congr_right
  intro member
  obtain ⟨first, second⟩ := neighbours_sound sound member
  exact Mass.below_area_pos_iff first second (wide_of_apart sound apart member)

/-- Over positions that are apart, there is a centroid exactly if there are two samples and one of
them is above 0. -/
theorem isSome_centroid?_iff (sound : ∀ sample ∈ curve, sample.Sound least greatest)
    (apart : Apart curve.positions) :
    curve.centroid?.isSome ↔ 2 ≤ curve.length ∧ ∃ sample ∈ curve, 0 < sample.degree := by
  rw [isSome_centroid?_iff_area (mass_centred sound), mass_area_pos_iff sound apart]

theorem centroid?_answering_of_below {byZero : Exact → Exact}
    (centred : curve.mass.Centred least greatest)
    (same : ∀ pair ∈ adjacent curve,
      @Mass.below Exact (answering byZero) pair.1 pair.2 = Mass.below pair.1 pair.2) :
    @centroid? Exact (answering byZero) curve = curve.centroid? := by
  have sameMass : @mass Exact (answering byZero) curve = curve.mass := by
    apply List.foldl_ext
    intro total pair member
    rw [same pair member]
    rfl
  obtain ⟨area, moment, total, _⟩ := centred
  unfold centroid?
  rw [sameMass, total]
  simp only [literal_eq, rat_le, Nat.cast_zero]
  split
  · rfl
  · next solid => rw [answering_ratio byZero _ (not_le.mp solid).ne']

theorem centroid?_answering (byZero : Exact → Exact)
    (sound : ∀ sample ∈ curve, sample.Sound least greatest) :
    @centroid? Exact (answering byZero) curve = curve.centroid? := by
  refine centroid?_answering_of_below (mass_centred sound) fun pair member => ?_
  obtain ⟨first, second⟩ := neighbours_sound sound member
  exact Mass.below_answering byZero first second

end Curve
end RuleAdvisor.Fuzzy
