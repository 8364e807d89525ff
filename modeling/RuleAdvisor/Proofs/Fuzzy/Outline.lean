import RuleAdvisor.Proofs.Fuzzy.Degree

/-!
Well-formed shapes over the rationals. Four breakpoints give the shape, a triangle having two of
them in one place. Between neighbouring breakpoints the degree follows a straight line, and cutting
the shape off at a strength bends it at two more places, its corners.
-/

namespace RuleAdvisor.Fuzzy

open Exact

def Straight (p q : Rat) (f : Rat → Rat) : Prop :=
  ∃ start slope, ∀ x, p ≤ x → x ≤ q → f x = start + slope * x

namespace Straight

variable {p q : Rat} {f : Rat → Rat}

theorem of_const {value : Rat} (same : ∀ x, p ≤ x → x ≤ q → f x = value) : Straight p q f :=
  ⟨value, 0, fun x lower upper => by rw [same x lower upper, zero_mul, add_zero]⟩

theorem of_ge (noWidth : q ≤ p) (f : Rat → Rat) : Straight p q f :=
  .of_const fun x lower upper => by
    rw [le_antisymm (upper.trans noWidth) lower]

theorem congr {g : Rat → Rat} (straight : Straight p q f)
    (same : ∀ x, p ≤ x → x ≤ q → g x = f x) : Straight p q g := by
  obtain ⟨start, slope, onLine⟩ := straight
  exact ⟨start, slope, fun x lower upper => (same x lower upper).trans (onLine x lower upper)⟩

theorem mono (straight : Straight p q f) {p' q' : Rat} (later : p ≤ p') (earlier : q' ≤ q) :
    Straight p' q' f := by
  obtain ⟨start, slope, onLine⟩ := straight
  exact ⟨start, slope, fun x lower upper => onLine x (later.trans lower) (upper.trans earlier)⟩

theorem ge_of_ends (straight : Straight p q f) {level x : Rat} (atStart : level ≤ f p)
    (atEnd : level ≤ f q) (lower : p ≤ x) (upper : x ≤ q) : level ≤ f x := by
  obtain ⟨start, slope, onLine⟩ := straight
  rw [onLine p (le_refl p) (lower.trans upper)] at atStart
  rw [onLine q (lower.trans upper) (le_refl q)] at atEnd
  rw [onLine x lower upper]
  rcases le_total 0 slope with rising | falling
  · linarith [mul_le_mul_of_nonneg_left lower rising]
  · linarith [mul_le_mul_of_nonpos_left upper falling]

theorem le_of_ends (straight : Straight p q f) {level x : Rat} (atStart : f p ≤ level)
    (atEnd : f q ≤ level) (lower : p ≤ x) (upper : x ≤ q) : f x ≤ level := by
  obtain ⟨start, slope, onLine⟩ := straight
  rw [onLine p (le_refl p) (lower.trans upper)] at atStart
  rw [onLine q (lower.trans upper) (le_refl q)] at atEnd
  rw [onLine x lower upper]
  rcases le_total 0 slope with rising | falling
  · linarith [mul_le_mul_of_nonneg_left upper rising]
  · linarith [mul_le_mul_of_nonpos_left lower falling]

/-- A line whose ends are not on either side of a level stays a line when it is cut off there. -/
theorem min_of_sameSide (straight : Straight p q f) {level : Rat}
    (sameSide : 0 ≤ (f p - level) * (f q - level)) :
    Straight p q fun x => min level (f x) := by
  rcases mul_nonneg_iff.mp sameSide with ⟨aboveP, aboveQ⟩ | ⟨belowP, belowQ⟩
  · refine .of_const fun x lower upper => min_eq_left ?_
    exact straight.ge_of_ends (by linarith) (by linarith) lower upper
  · refine straight.congr fun x lower upper => min_eq_right ?_
    exact straight.le_of_ends (by linarith) (by linarith) lower upper

end Straight

/-- Four breakpoints in ascending order, not all in one place. -/
@[ext] structure Outline where
  a : Rat
  b : Rat
  c : Rat
  d : Rat
  rises : a ≤ b
  level : b ≤ c
  falls : c ≤ d
  wide : a < d

/-- The shape has the breakpoints of the outline; the top of a triangle is a single position. -/
def Shape.HasOutline (shape : Shape Exact) (o : Outline) : Prop :=
  shape = ⟨.trapezoidal, [rat o.a, rat o.b, rat o.c, rat o.d]⟩
    ∨ o.b = o.c ∧ shape = ⟨.triangular, [rat o.a, rat o.b, rat o.d]⟩

theorem Shape.WellFormed.exists_outline {shape : Shape Exact} (valid : shape.WellFormed) :
    ∃ o, shape.HasOutline o := by
  rcases valid.exists_breakpoints with
    ⟨a, b, c, rfl, rises, falls, wide⟩ | ⟨a, b, c, d, rfl, rises, level, falls, wide⟩
  · exact ⟨⟨a, b, b, c, rises, le_refl b, falls, wide⟩, .inr ⟨rfl, rfl⟩⟩
  · exact ⟨⟨a, b, c, d, rises, level, falls, wide⟩, .inl rfl⟩

theorem Shape.HasOutline.wellFormed {shape : Shape Exact} {o : Outline}
    (outline : shape.HasOutline o) : shape.WellFormed := by
  have rises := o.rises
  have falls := o.level.trans o.falls
  rcases outline with rfl | ⟨-, rfl⟩
  · refine ⟨rfl, by simp, ?_, rat o.a, rat o.d, rfl, rfl, (rat_lt _ _).mpr o.wide⟩
    simp [o.level, o.falls, rises, falls, rises.trans o.level, rises.trans falls]
  · refine ⟨rfl, by simp, ?_, rat o.a, rat o.d, rfl, rfl, (rat_lt _ _).mpr o.wide⟩
    simp [rises, falls, rises.trans falls]

theorem Shape.HasOutline.unique {shape : Shape Exact} {o other : Outline}
    (first : shape.HasOutline o) (second : shape.HasOutline other) : o = other := by
  rcases first with rfl | ⟨peak, rfl⟩
  · rcases second with same | ⟨-, same⟩
    · simp only [Shape.mk.injEq, List.cons.injEq, rat.injEq, and_true, true_and] at same
      exact Outline.ext same.1 same.2.1 same.2.2.1 same.2.2.2
    · cases same
  · rcases second with same | ⟨otherPeak, same⟩
    · cases same
    · simp only [Shape.mk.injEq, List.cons.injEq, rat.injEq, and_true, true_and] at same
      exact Outline.ext same.1 same.2.1 (peak.symm.trans (same.2.1.trans otherPeak)) same.2.2

namespace Outline

variable (o : Outline)

def height (x : Rat) : Rat :=
  if x < o.a ∨ o.d < x then 0
  else if o.b ≤ x ∧ x ≤ o.c then 1
  else if x < o.b then (x - o.a) / (o.b - o.a)
  else (o.d - x) / (o.d - o.c)

def corners (strength : Rat) : Rat × Rat :=
  (o.a + strength * (o.b - o.a), o.d - strength * (o.d - o.c))

def IsCorner (strength x : Rat) : Prop :=
  x = (o.corners strength).1 ∨ x = (o.corners strength).2

variable {o}

theorem height_of_outside {x : Rat} (outside : x < o.a ∨ o.d < x) : o.height x = 0 :=
  if_pos outside

theorem height_of_top {x : Rat} (lower : o.b ≤ x) (upper : x ≤ o.c) : o.height x = 1 := by
  have inside : ¬ (x < o.a ∨ o.d < x) := by
    rw [not_or, not_lt, not_lt]
    exact ⟨o.rises.trans lower, upper.trans o.falls⟩
  rw [height, if_neg inside, if_pos ⟨lower, upper⟩]

theorem height_of_rising (slanted : o.a < o.b) {x : Rat} (lower : o.a ≤ x) (upper : x ≤ o.b) :
    o.height x = (x - o.a) / (o.b - o.a) := by
  rcases upper.eq_or_lt with rfl | before
  · rw [height_of_top (le_refl _) o.level, div_self (sub_pos.mpr slanted).ne']
  · have inside : ¬ (x < o.a ∨ o.d < x) := by
      rw [not_or, not_lt, not_lt]
      exact ⟨lower, before.le.trans (o.level.trans o.falls)⟩
    rw [height, if_neg inside, if_neg fun top => absurd top.1 (not_le.mpr before), if_pos before]

theorem height_of_falling (slanted : o.c < o.d) {x : Rat} (lower : o.c ≤ x) (upper : x ≤ o.d) :
    o.height x = (o.d - x) / (o.d - o.c) := by
  rcases lower.eq_or_lt with rfl | beyond
  · rw [height_of_top o.level (le_refl _), div_self (sub_pos.mpr slanted).ne']
  · have fromTop := o.level.trans_lt beyond
    have inside : ¬ (x < o.a ∨ o.d < x) := by
      rw [not_or, not_lt, not_lt]
      exact ⟨o.rises.trans fromTop.le, upper⟩
    rw [height, if_neg inside, if_neg fun top => absurd top.2 (not_le.mpr beyond),
      if_neg (not_lt.mpr fromTop.le)]

end Outline

theorem Shape.HasOutline.degree {shape : Shape Exact} {o : Outline} (outline : shape.HasOutline o)
    (x : Rat) : shape.degree (rat x) = rat (o.height x) := by
  have rises := o.rises
  have falls := o.falls
  -- A triangle tests its peak where a trapezoid tests its top; the slants are the same.
  have graded : shape.degree (rat x)
      = trapezoid (rat o.a) (rat o.b) (rat o.c) (rat o.d) (rat x) := by
    rcases outline with rfl | ⟨peak, rfl⟩
    · rfl
    · rw [← peak]
      exact triangle_eq_trapezoid beq_iff_le _ _ _ _
  rw [graded]
  simp only [trapezoid, Outline.height, rat_lt, rat_le, rat_sub, literal_eq]
  split
  · simp
  · next inside =>
      split
      · simp
      · next outsideTop =>
          split
          · rw [rat_div]
            grind
          · rw [rat_div]
            grind

namespace Outline

variable {o : Outline}

/-- No breakpoint lies strictly between `p` and `q`, and neither does an end that jumps. -/
structure Clear (o : Outline) (p q : Rat) : Prop where
  a : q ≤ o.a ∨ o.a ≤ p
  b : q ≤ o.b ∨ o.b ≤ p
  c : q ≤ o.c ∨ o.c ≤ p
  d : q ≤ o.d ∨ o.d ≤ p
  left : o.a = o.b → o.a ≤ p
  right : o.c = o.d → q ≤ o.d

theorem height_a (slanted : o.a < o.b) : o.height o.a = 0 := by
  rw [height_of_rising slanted (le_refl _) o.rises, sub_self, zero_div]

theorem height_d (slanted : o.c < o.d) : o.height o.d = 0 := by
  rw [height_of_falling slanted o.falls (le_refl _), sub_self, zero_div]

theorem straight_of_clear {p q : Rat} (clear : o.Clear p q) : Straight p q o.height := by
  rcases le_or_gt q p with noWidth | wide
  · exact .of_ge noWidth _
  -- From left to right, each breakpoint lies behind the pair or before it.
  rcases clear.a with before | fromA
  · refine Straight.of_const (fun x _ upper => (?_ : o.height x = 0))
    rcases (upper.trans before).eq_or_lt with rfl | outside
    · refine height_a (lt_of_le_of_ne o.rises fun jump => ?_)
      exact absurd (clear.left jump) (not_le.mpr (wide.trans_le before))
    · exact height_of_outside (.inl outside)
  rcases clear.b with rising | fromB
  · refine ⟨-o.a / (o.b - o.a), 1 / (o.b - o.a), fun x lower upper => ?_⟩
    have slanted : o.a < o.b := fromA.trans_lt (wide.trans_le rising)
    rw [height_of_rising slanted (fromA.trans lower) (upper.trans rising)]
    ring
  rcases clear.c with top | fromC
  · exact .of_const fun x lower upper => height_of_top (fromB.trans lower) (upper.trans top)
  rcases clear.d with falling | beyond
  · refine ⟨o.d / (o.d - o.c), -1 / (o.d - o.c), fun x lower upper => ?_⟩
    have slanted : o.c < o.d := fromC.trans_lt (wide.trans_le falling)
    rw [height_of_falling slanted (fromC.trans lower) (upper.trans falling)]
    ring
  · refine Straight.of_const (fun x lower _ => (?_ : o.height x = 0))
    rcases (beyond.trans lower).eq_or_lt with rfl | outside
    · refine height_d (lt_of_le_of_ne o.falls fun jump => ?_)
      exact absurd (clear.right jump) (not_le.mpr (beyond.trans_lt wide))
    · exact height_of_outside (.inr outside)

theorem height_within (o : Outline) (x : Rat) : 0 ≤ o.height x ∧ o.height x ≤ 1 := by
  have outline : Shape.HasOutline ⟨.trapezoidal, [rat o.a, rat o.b, rat o.c, rat o.d]⟩ o := .inl rfl
  have degree := outline.wellFormed.isDegree x
  rwa [outline.degree, isDegree_rat] at degree

theorem region (o : Outline) (x : Rat) :
    (x < o.a ∨ o.d < x) ∨ (o.a < o.b ∧ o.a ≤ x ∧ x ≤ o.b) ∨ (o.b ≤ x ∧ x ≤ o.c)
      ∨ (o.c < o.d ∧ o.c ≤ x ∧ x ≤ o.d) := by
  by_cases outside : x < o.a ∨ o.d < x
  · exact .inl outside
  · rw [not_or, not_lt, not_lt] at outside
    rcases le_or_gt x o.b with before | beyondTop
    · rcases o.rises.eq_or_lt with jump | slanted
      · exact .inr (.inr (.inl ⟨jump ▸ outside.1, before.trans o.level⟩))
      · exact .inr (.inl ⟨slanted, outside.1, before⟩)
    · rcases le_or_gt x o.c with top | falling
      · exact .inr (.inr (.inl ⟨beyondTop.le, top⟩))
      · exact .inr (.inr (.inr ⟨falling.trans_le outside.2, falling.le, outside.2⟩))

section Corners

variable {s : Rat}

theorem leftCorner_within (nonneg : 0 ≤ s) (atMostOne : s ≤ 1) :
    o.a ≤ (o.corners s).1 ∧ (o.corners s).1 ≤ o.b := by
  have width := sub_nonneg.mpr o.rises
  have forward := mul_nonneg nonneg width
  have short := mul_le_of_le_one_left width atMostOne
  simp only [corners]
  constructor <;> linarith

theorem rightCorner_within (nonneg : 0 ≤ s) (atMostOne : s ≤ 1) :
    o.c ≤ (o.corners s).2 ∧ (o.corners s).2 ≤ o.d := by
  have width := sub_nonneg.mpr o.falls
  have forward := mul_nonneg nonneg width
  have short := mul_le_of_le_one_left width atMostOne
  simp only [corners]
  constructor <;> linarith

theorem corner_within (nonneg : 0 ≤ s) (atMostOne : s ≤ 1) {x : Rat} (corner : o.IsCorner s x) :
    o.a ≤ x ∧ x ≤ o.d := by
  obtain ⟨fromA, toB⟩ := o.leftCorner_within nonneg atMostOne
  obtain ⟨fromC, toD⟩ := o.rightCorner_within nonneg atMostOne
  rcases corner with rfl | rfl
  · exact ⟨fromA, toB.trans (o.level.trans o.falls)⟩
  · exact ⟨o.rises.trans (o.level.trans fromC), toD⟩

theorem le_height_iff (positive : 0 < s) (atMostOne : s ≤ 1) (x : Rat) :
    s ≤ o.height x ↔ (o.corners s).1 ≤ x ∧ x ≤ (o.corners s).2 := by
  obtain ⟨fromA, toB⟩ := o.leftCorner_within positive.le atMostOne
  obtain ⟨fromC, toD⟩ := o.rightCorner_within positive.le atMostOne
  have level := o.level
  rcases o.region x with outside | ⟨slanted, lower, upper⟩ | ⟨lower, upper⟩ |
    ⟨slanted, lower, upper⟩
  · rw [height_of_outside outside]
    refine iff_of_false (not_le.mpr positive) ?_
    rintro ⟨above, below⟩
    rcases outside with before | beyond <;> linarith
  · rw [height_of_rising slanted lower upper, le_div_iff₀ (sub_pos.mpr slanted),
      and_iff_left (by linarith), corners, le_sub_iff_add_le']
  · rw [height_of_top lower upper]
    exact iff_of_true atMostOne ⟨by linarith, by linarith⟩
  · rw [height_of_falling slanted lower upper, le_div_iff₀ (sub_pos.mpr slanted),
      and_iff_right (by linarith), corners, le_sub_comm]

/-- What is reached at two positions is reached between them. -/
theorem le_height_of_between (positive : 0 < s) (atMostOne : s ≤ 1) {x y z : Rat}
    (first : s ≤ o.height x) (last : s ≤ o.height z) (after : x ≤ y) (before : y ≤ z) :
    s ≤ o.height y :=
  (le_height_iff positive atMostOne y).mpr
    ⟨((le_height_iff positive atMostOne x).mp first).1.trans after,
      before.trans ((le_height_iff positive atMostOne z).mp last).2⟩

theorem eq_corner_of_height (positive : 0 < s) (short : s < 1) {x : Rat}
    (met : o.height x = s) : o.IsCorner s x := by
  rcases o.region x with outside | ⟨slanted, lower, upper⟩ | ⟨lower, upper⟩ |
    ⟨slanted, lower, upper⟩
  · rw [height_of_outside outside] at met
    exact absurd met positive.ne
  · left
    rw [height_of_rising slanted lower upper, div_eq_iff (sub_pos.mpr slanted).ne'] at met
    rw [corners]
    linarith
  · rw [height_of_top lower upper] at met
    exact absurd met short.ne'
  · right
    rw [height_of_falling slanted lower upper, div_eq_iff (sub_pos.mpr slanted).ne'] at met
    rw [corners]
    linarith

theorem height_leftCorner (nonneg : 0 ≤ s) (atMostOne : s ≤ 1) (slanted : o.a < o.b) :
    o.height (o.corners s).1 = s := by
  obtain ⟨fromA, toB⟩ := o.leftCorner_within nonneg atMostOne
  rw [height_of_rising slanted fromA toB, div_eq_iff (sub_pos.mpr slanted).ne', corners]
  exact add_sub_cancel_left _ _

theorem height_rightCorner (nonneg : 0 ≤ s) (atMostOne : s ≤ 1) (slanted : o.c < o.d) :
    o.height (o.corners s).2 = s := by
  obtain ⟨fromC, toD⟩ := o.rightCorner_within nonneg atMostOne
  rw [height_of_falling slanted fromC toD, div_eq_iff (sub_pos.mpr slanted).ne', corners]
  exact sub_sub_cancel _ _

theorem isCorner_one (x : Rat) : o.IsCorner 1 x ↔ x = o.b ∨ x = o.c := by
  rw [IsCorner, corners, one_mul, one_mul, add_sub_cancel, sub_sub_cancel]

theorem eq_breakpoint_or_height (nonneg : 0 ≤ s) (atMostOne : s ≤ 1) {x : Rat}
    (corner : o.IsCorner s x) :
    x = o.a ∨ x = o.b ∨ x = o.c ∨ x = o.d ∨ s < 1 ∧ o.height x = s := by
  rcases atMostOne.eq_or_lt with rfl | short
  · rw [isCorner_one] at corner
    exact .inr (corner.imp id .inl)
  · rcases corner with rfl | rfl
    · rcases o.rises.eq_or_lt with jump | slanted
      · left
        rw [corners, jump, sub_self, mul_zero, add_zero]
      · exact .inr (.inr (.inr (.inr ⟨short, height_leftCorner nonneg atMostOne slanted⟩)))
    · rcases o.falls.eq_or_lt with jump | slanted
      · refine .inr (.inr (.inl ?_))
        rw [corners, jump, sub_self, mul_zero, sub_zero]
      · exact .inr (.inr (.inr (.inr ⟨short, height_rightCorner nonneg atMostOne slanted⟩)))

end Corners

end Outline
end RuleAdvisor.Fuzzy
