import RuleAdvisor.Proofs.Fuzzy.Combining

/-!
How far the joined curve agrees with what is joined, at every position of the domain and not only
at the samples. Over a grid that has all breakpoints it never falls below the greatest of the
cut-off conclusions, and it is exact where one of them is greatest at two neighbouring samples.
Where two slopes cross between samples no sample is taken, and the curve passes above both.
-/

namespace RuleAdvisor.Fuzzy

open Exact

namespace Output

/-- The degree of the activation's conclusion at `x`, cut off at its strength. -/
def cutAt? (output : Output Exact) (activation : Activation Exact) (x : Exact) : Option Exact :=
  (output.categories.get? activation.conclusion).map fun shape =>
    Number.least activation.strength (shape.degree x)

/-- No cut-off conclusion is higher than `y` at `x`, and one of them reaches it unless it is 0. -/
def Tops (output : Output Exact) (activations : List (Activation Exact)) (x y : Exact) : Prop :=
  IsGreatest {z | z = 0 ∨ ∃ activation ∈ activations, output.cutAt? activation x = some z} y

/-- The curve has the greatest cut-off degree at every position of the domain. -/
def Matches (output : Output Exact) (activations : List (Activation Exact))
    (curve : Curve Exact) : Prop :=
  ∀ x, output.domain.least ≤ x → x ≤ output.domain.greatest →
    ∃ y, curve.degreeAt? x = some y ∧ output.Tops activations x y

/-- One and the same conclusion reaches the curve at both samples, or the curve is 0 at both. -/
def SharesTop (output : Output Exact) (activations : List (Activation Exact))
    (left right : Sample Exact) : Prop :=
  left.degree = 0 ∧ right.degree = 0 ∨ ∃ activation ∈ activations,
    output.cutAt? activation left.position = some left.degree
      ∧ output.cutAt? activation right.position = some right.degree

instance (output : Output Exact) (activations : List (Activation Exact))
    (left right : Sample Exact) : Decidable (output.SharesTop activations left right) :=
  inferInstanceAs (Decidable (_ ∨ _))

def IsCorner (output : Output Exact) (activations : List (Activation Exact)) (x : Rat) : Prop :=
  ∃ activation ∈ activations, ∃ shape o strength,
    output.categories.get? activation.conclusion = some shape ∧ shape.HasOutline o
      ∧ activation.strength = rat strength ∧ o.IsCorner strength x

section Cuts

variable {output : Output Exact} {activations : List (Activation Exact)} {cuts : List Cut}

theorem cutAt?_eq_some_iff {activation : Activation Exact} {x z : Exact} :
    output.cutAt? activation x = some z ↔ ∃ clip, output.clip activation = .ok clip
      ∧ z = Number.least clip.strength (clip.shape.degree x) := by
  rw [cutAt?, Option.map_eq_some_iff]
  constructor
  · rintro ⟨shape, named, rfl⟩
    exact ⟨⟨activation.strength, shape⟩,
      clip_eq_ok_iff.mpr ⟨shapeOf_eq_ok_iff.mpr named, rfl⟩, rfl⟩
  · rintro ⟨clip, clipped, rfl⟩
    obtain ⟨named, strength⟩ := clip_eq_ok_iff.mp clipped
    exact ⟨clip.shape, shapeOf_eq_ok_iff.mp named, by rw [strength]⟩

theorem cutAt?_rat {activation : Activation Exact} {x z : Exact}
    (between : IsDegree activation.strength)
    (degrees : ∀ shape, output.categories.get? activation.conclusion = some shape →
      IsDegree (shape.degree x))
    (reached : output.cutAt? activation x = some z) :
    ∃ s m, activation.strength = rat s ∧ z = rat (min s m) ∧ 0 ≤ s ∧ 0 ≤ m := by
  obtain ⟨s, strength, nonneg, -⟩ := (isDegree_iff _).mp between
  obtain ⟨shape, named, rfl⟩ := Option.map_eq_some_iff.mp reached
  obtain ⟨m, degree, alsoNonneg, -⟩ := (isDegree_iff _).mp (degrees shape named)
  exact ⟨s, m, strength, by rw [strength, degree, least_rat], nonneg, alsoNonneg⟩

theorem Draws.cutAt?_eq {activation : Activation Exact} {cut : Cut}
    (draws : output.Draws activation cut) (x : Rat) :
    output.cutAt? activation (rat x) = some (rat (cut.degree x)) := by
  obtain ⟨strength, shape, named, outline⟩ := draws
  rw [cutAt?, shapeOf_eq_ok_iff.mp named, Option.map_some, strength, outline.degree, least_rat,
    Cut.degree]

section Joined

variable (draws : List.Forall₂ output.Draws (firedOf activations) cuts)
  (outlined : ∀ category shape, output.categories.get? category = some shape →
    ∃ o, shape.HasOutline o)
  (between : ∀ activation ∈ activations, IsDegree activation.strength)

include draws outlined between

theorem idle_or_draws {activation : Activation Exact} (given : activation ∈ activations) :
    (∀ (x : Rat) (z : Exact), output.cutAt? activation (rat x) = some z → z = rat 0)
      ∨ ∃ cut ∈ cuts, output.Draws activation cut := by
  by_cases idle : activation.strength ≤ 0
  · left
    intro x z reached
    have degrees : ∀ shape, output.categories.get? activation.conclusion = some shape →
        IsDegree (shape.degree (rat x)) := by
      intro shape named
      obtain ⟨o, outline⟩ := outlined _ _ named
      exact outline.wellFormed.isDegree x
    obtain ⟨s, m, strength, rfl, nonneg, alsoNonneg⟩ :=
      cutAt?_rat (between activation given) degrees reached
    rw [strength, literal_eq, rat_le, Nat.cast_zero] at idle
    rw [le_antisymm idle nonneg, min_eq_left alsoNonneg]
  · right
    exact exists_mem_of_forall₂ draws (mem_firedOf.mpr ⟨given, idle⟩)

theorem reached_iff (x : Rat) (z : Exact) :
    (z = 0 ∨ ∃ activation ∈ activations, output.cutAt? activation (rat x) = some z)
      ↔ ∃ y, z = rat y ∧ (y = 0 ∨ ∃ g ∈ cuts.map Cut.degree, g x = y) := by
  constructor
  · rintro (rfl | ⟨activation, given, reached⟩)
    · exact ⟨0, by rw [literal_eq, Nat.cast_zero], .inl rfl⟩
    · rcases idle_or_draws draws outlined between given with idle | ⟨cut, drawn, isCut⟩
      · exact ⟨0, idle x z reached, .inl rfl⟩
      · rw [isCut.cutAt?_eq, Option.some_inj] at reached
        exact ⟨cut.degree x, reached.symm, .inr ⟨_, List.mem_map_of_mem drawn, rfl⟩⟩
  · rintro ⟨_, rfl, rfl | ⟨g, listed, rfl⟩⟩
    · exact .inl (by rw [literal_eq, Nat.cast_zero])
    · obtain ⟨cut, drawn, rfl⟩ := List.mem_map.mp listed
      obtain ⟨activation, fired, isCut⟩ := exists_of_mem_forall₂ draws drawn
      exact .inr ⟨activation, (mem_firedOf.mp fired).1, isCut.cutAt?_eq x⟩

theorem tops_iff (x : Rat) (z : Exact) :
    output.Tops activations (rat x) z ↔ z = rat (highest (cuts.map Cut.degree) x) := by
  obtain ⟨attained, bound⟩ := highest_isGreatest (cuts.map Cut.degree) x
  have reached := reached_iff draws outlined between x
  constructor
  · rintro ⟨attainedHere, boundHere⟩
    obtain ⟨y, rfl, value⟩ := (reached z).mp attainedHere
    have below := boundHere ((reached _).mpr ⟨_, rfl, attained⟩)
    rw [rat_le] at below
    rw [le_antisymm (bound value) below]
  · rintro rfl
    refine ⟨(reached _).mpr ⟨_, rfl, attained⟩, fun z member => ?_⟩
    obtain ⟨y, rfl, value⟩ := (reached z).mp member
    rw [rat_le]
    exact bound value

theorem sharesTop_iff (p q m n : Rat) :
    output.SharesTop activations ⟨rat p, rat m⟩ ⟨rat q, rat n⟩
      ↔ (m = 0 ∧ n = 0) ∨ ∃ g ∈ cuts.map Cut.degree, g p = m ∧ g q = n := by
  simp only [SharesTop, literal_eq, Nat.cast_zero, Exact.rat.injEq]
  constructor
  · rintro (flat | ⟨activation, given, atP, atQ⟩)
    · exact .inl flat
    · rcases idle_or_draws draws outlined between given with idle | ⟨cut, drawn, isCut⟩
      · exact .inl ⟨rat.inj (idle p _ atP), rat.inj (idle q _ atQ)⟩
      · rw [isCut.cutAt?_eq, Option.some_inj] at atP atQ
        exact .inr ⟨_, List.mem_map_of_mem drawn, rat.inj atP, rat.inj atQ⟩
  · rintro (flat | ⟨g, listed, rfl, rfl⟩)
    · exact .inl flat
    · obtain ⟨cut, drawn, rfl⟩ := List.mem_map.mp listed
      obtain ⟨activation, fired, isCut⟩ := exists_of_mem_forall₂ draws drawn
      exact .inr ⟨activation, (mem_firedOf.mp fired).1, isCut.cutAt?_eq p, isCut.cutAt?_eq q⟩

end Joined

end Cuts

/-- All breakpoints are on the grid, and no corner is near to it or to another without being on
it. -/
structure Aligned (output : Output Exact) (activations : List (Activation Exact))
    (least step : Rat) (count : Nat) : Prop extends Gridded output least step count where
  outlined : ∀ category shape, output.categories.get? category = some shape →
    ∃ o, shape.HasOutline o ∧ o.OnGrid (gridPoints least step count)
  between : ∀ activation ∈ activations, IsDegree activation.strength
  named : ∀ activation ∈ activations, 0 < activation.strength →
    activation.conclusion ∈ output.categories.keys
  scattered : Scattered (gridPoints least step count) (output.IsCorner activations)

namespace Aligned

variable {output : Output Exact} {activations : List (Activation Exact)} {least step : Rat}
  {count : Nat} (aligned : output.Aligned activations least step count)

include aligned

theorem exists_outline (category : String) (shape : Shape Exact)
    (found : output.categories.get? category = some shape) : ∃ o, shape.HasOutline o :=
  (aligned.outlined category shape found).imp fun _ parts => parts.1

/-- Every conclusion that fired is a cut with its breakpoints on the grid. -/
theorem exists_cuts : ∃ cuts, List.Forall₂ output.Draws (firedOf activations) cuts
    ∧ ∀ cut ∈ cuts, cut.outline.OnGrid (gridPoints least step count) := by
  have each : ∀ activation ∈ firedOf activations, ∃ cut, output.Draws activation cut
      ∧ cut.outline.OnGrid (gridPoints least step count) := by
    intro activation fired
    obtain ⟨given, notIdle⟩ := mem_firedOf.mp fired
    obtain ⟨s, strength, -, atMostOne⟩ := (isDegree_iff _).mp (aligned.between activation given)
    have positive : 0 < s := by
      rwa [strength, literal_eq, rat_le, Nat.cast_zero, not_le] at notIdle
    obtain ⟨shape, found⟩ := Option.isSome_iff_exists.mp ((Record.isSome_get?_iff _ _).mpr
      (aligned.named activation given (by rwa [strength, rat_pos])))
    obtain ⟨o, outline, onGrid⟩ := aligned.outlined _ shape found
    exact ⟨⟨o, s, positive, atMostOne⟩,
      ⟨strength, shape, shapeOf_eq_ok_iff.mpr found, outline⟩, onGrid⟩
  obtain ⟨cuts, pairs⟩ := exists_forall₂ each
  refine ⟨cuts, pairs.imp fun _ _ parts => parts.1, fun cut drawn => ?_⟩
  obtain ⟨_, _, _, own⟩ := exists_of_mem_forall₂ pairs drawn
  exact own

theorem exists_traces : ∃ cuts positions,
    List.Forall₂ output.Draws (firedOf activations) cuts
      ∧ Traces least (gridPoint least step count) (cuts.map Cut.degree) positions
      ∧ output.curveOf activations = .ok (traced (highest (cuts.map Cut.degree)) positions) := by
  obtain ⟨cuts, draws, onGrid⟩ := aligned.exists_cuts
  have corners : Scattered (gridPoints least step count)
      fun x => ∃ cut ∈ cuts, cut.outline.IsCorner cut.strength x := by
    refine aligned.scattered.mono fun x ⟨cut, drawn, corner⟩ => ?_
    obtain ⟨activation, fired, strength, shape, found, outline⟩ := exists_of_mem_forall₂ draws drawn
    exact ⟨activation, (mem_firedOf.mp fired).1, shape, cut.outline, cut.strength,
      shapeOf_eq_ok_iff.mp found, outline, strength, corner⟩
  obtain ⟨positions, sampling, joined⟩ :=
    exists_sampling aligned.ends aligned.samples_eq aligned.spread draws onGrid corners
  exact ⟨cuts, positions, draws, aligned.traces sampling onGrid, joined⟩

/-- The joined curve is found and never falls below the greatest of the cut-off conclusions. It has
their greatest degree at every position of the domain exactly if at any two neighbouring samples
one and the same of them is greatest. -/
theorem curve_matches_iff : ∃ curve, output.curveOf activations = .ok curve
    ∧ (∀ x, output.domain.least ≤ x → x ≤ output.domain.greatest →
      ∃ y top, curve.degreeAt? x = some y ∧ output.Tops activations x top ∧ top ≤ y)
    ∧ (output.Matches activations curve
      ↔ ∀ pair ∈ adjacent curve, output.SharesTop activations pair.1 pair.2) := by
  obtain ⟨cuts, positions, draws, traces, joined⟩ := aligned.exists_traces
  have tops := tops_iff draws aligned.exists_outline aligned.between
  refine ⟨_, joined, ?_, ?_⟩
  · rw [aligned.domain]
    intro x lower upper
    obtain ⟨q, rfl, fromLeast, toGreatest⟩ := exists_rat_of_between lower upper
    obtain ⟨y, degree, above⟩ := traces.exists_degree fromLeast toGreatest
    exact ⟨rat y, _, degree, (tops q _).mpr rfl, (rat_le _ _).mpr above⟩
  -- Told by rationals: inside the domain there is nothing else.
  · have matched : output.Matches activations (traced (highest (cuts.map Cut.degree)) positions)
        ↔ ∀ x, least ≤ x → x ≤ gridPoint least step count →
          (traced (highest (cuts.map Cut.degree)) positions).degreeAt? (rat x)
            = some (rat (highest (cuts.map Cut.degree) x)) := by
      rw [Matches, aligned.domain]
      constructor
      · intro all x lower upper
        obtain ⟨y, degree, top⟩ := all (rat x) ((rat_le _ _).mpr lower) ((rat_le _ _).mpr upper)
        rw [degree, (tops x y).mp top]
      · intro all x lower upper
        obtain ⟨q, rfl, fromLeast, toGreatest⟩ := exists_rat_of_between lower upper
        exact ⟨_, all q fromLeast toGreatest, (tops q _).mpr rfl⟩
    rw [matched, traces.exact_iff, adjacent_traced, List.forall_mem_map]
    simp only [sharesTop_iff draws aligned.exists_outline aligned.between]

end Aligned

theorem scattered_of_full {output : Output Exact} {grid : List Rat}
    (outlined : ∀ category shape, output.categories.get? category = some shape →
      ∃ o, shape.HasOutline o ∧ o.OnGrid grid)
    {activations : List (Activation Exact)}
    (full : ∀ activation ∈ activations, activation.strength = rat 1) :
    Scattered grid (output.IsCorner activations) := by
  rintro x ⟨activation, given, shape, o, s, found, outline, strength, corner⟩
  obtain rfl : s = 1 := rat.inj (strength.symm.trans (full activation given))
  obtain ⟨other, sameOutline, onGrid⟩ := outlined _ shape found
  obtain rfl := outline.unique sameOutline
  rw [Outline.isCorner_one] at corner
  rcases corner with rfl | rfl
  · exact .inl onGrid.b
  · exact .inl onGrid.c

end Output

def slopes (resolution : Rat) : Output Exact where
  name := "watering_time"
  unit := " min"
  domain := ⟨0, 8⟩
  categories := .mk [("short", ⟨.triangular, [0, 0, 4]⟩),
    ("long", ⟨.trapezoidal, [0, 4, 8, 8]⟩)] (by simp)
  resolution := rat resolution

def slopesFired : List (Activation Exact) := [⟨"R1", "short", 1⟩, ⟨"R2", "long", 1⟩]

theorem slopes_outlined (resolution : Rat) {grid : List Rat} (starts : grid.head? = some 0)
    (middle : 4 ∈ grid) (ends : grid.getLast? = some 8) :
    ∀ category shape, (slopes resolution).categories.get? category = some shape →
      ∃ o, shape.HasOutline o ∧ o.OnGrid grid := by
  intro category shape found
  have first : 0 ∈ grid := List.mem_of_head? starts
  have last : 8 ∈ grid := List.mem_of_getLast? ends
  have listed := (Record.get?_eq_some_iff _ _ _).mp found
  have either : shape = ⟨.triangular, [0, 0, 4]⟩ ∨ shape = ⟨.trapezoidal, [0, 4, 8, 8]⟩ := by
    rcases List.mem_cons.mp listed with here | later
    · exact .inl (Prod.ext_iff.mp here).2
    · exact .inr (Prod.ext_iff.mp (List.mem_singleton.mp later)).2
  rcases either with rfl | rfl
  · exact ⟨⟨0, 0, 0, 4, by norm_num, by norm_num, by norm_num, by norm_num⟩,
      .inr ⟨rfl, by simp⟩, first, first, first, middle, fun _ => starts, by norm_num⟩
  · exact ⟨⟨0, 4, 8, 8, by norm_num, by norm_num, by norm_num, by norm_num⟩,
      .inl (by simp), first, middle, last, last, by norm_num, fun _ => ends⟩

theorem slopes_aligned {step : Rat} {count : Nat} (stepped : 0 < count) (apart : nearness < step)
    (middle : 4 ∈ gridPoints 0 step count) (whole : gridPoint 0 step count = 8) :
    (slopes step).Aligned slopesFired 0 step count := by
  have ends : (gridPoints 0 step count).getLast? = some 8 := by rw [getLast?_gridPoints, whole]
  have outlined := slopes_outlined step head?_gridPoints middle ends
  constructor
  case toGridded => exact ⟨by rw [whole]; simp [slopes], rfl, stepped, apart⟩
  case outlined => exact outlined
  case between => simp [slopesFired, isDegree_rat]
  case named => simp [slopesFired, slopes, Record.keys]
  case scattered => exact Output.scattered_of_full outlined (by simp [slopesFired])

def slopesClips : List (Clip Exact) :=
  [⟨1, ⟨.triangular, [0, 0, 4]⟩⟩, ⟨1, ⟨.trapezoidal, [0, 4, 8, 8]⟩⟩]

theorem slopes_curve {step : Rat} (grid : List Exact)
    (counted : (slopes step).domain.samples? (slopes step).resolution = some grid)
    (numbers : grid.any Number.isNaN = false) (ascending : grid.Pairwise fun x y => ¬ y < x)
    (apart : (grid.foldl keepApart []).reverse = grid) {curve : Curve Exact}
    (joined : grid.map (fun x => ⟨x, Output.joinedDegree slopesClips x⟩) = curve) :
    (slopes step).curveOf slopesFired = .ok curve := by
  have corners : slopesFired.mapM ((slopes step).corners
      ((slopes step).domain.samples (slopes step).resolution)) = .ok [[], []] := by
    simp [Output.corners, slopesFired]
    rfl
  have clips : (firedOf slopesFired).mapM (slopes step).clip = .ok slopesClips := by
    have fired : firedOf slopesFired = slopesFired := by decide +kernel
    rw [fired]
    rfl
  have merged : mergePositions grid [[], []].flatten = grid := by
    rw [mergePositions, List.flatten_cons, List.flatten_singleton, List.append_nil,
      List.append_nil, sortPositions_of_ascending numbers ascending, apart]
  have ends : (slopes step).Ends := Option.isSome_iff_exists.mpr ⟨grid, counted⟩
  have sampled : (slopes step).domain.samples (slopes step).resolution = grid := by
    rw [Domain.samples, counted, Option.getD_some]
  have found := Output.curveOf_eq ends corners clips
  rw [sampled, merged, joined] at found
  exact found

/-- Sampled where the slopes cross, the curve is exact. -/
theorem curve_matches_iff_sampled :
    (slopes 2).Aligned slopesFired 0 2 4
      ∧ ∃ curve, (slopes 2).curveOf slopesFired = .ok curve
        ∧ (slopes 2).Matches slopesFired curve := by
  have aligned : (slopes 2).Aligned slopesFired 0 2 4 :=
    slopes_aligned (by norm_num) (by norm_num [nearness]) (by decide +kernel) (by decide +kernel)
  have joined : (slopes 2).curveOf slopesFired
      = .ok [⟨0, 1⟩, ⟨2, 0.5⟩, ⟨4, 1⟩, ⟨6, 1⟩, ⟨8, 1⟩] :=
    slopes_curve [0, 2, 4, 6, 8] (by decide +kernel) (by decide +kernel)
      (by decide +kernel) (by decide +kernel) (by decide +kernel)
  obtain ⟨curve, found, -, exact⟩ := aligned.curve_matches_iff
  refine ⟨aligned, curve, found, exact.mpr ?_⟩
  obtain rfl := Except.ok.inj (joined.symm.trans found)
  decide +kernel

/-- Between the samples 0 and 4 the slopes meet at a half, and the curve stays at 1. -/
theorem curve_above_crossing :
    (slopes 4).Aligned slopesFired 0 4 2
      ∧ ∃ curve, (slopes 4).curveOf slopesFired = .ok curve
        ∧ curve.degreeAt? 2 = some 1 ∧ (slopes 4).Tops slopesFired 2 0.5
        ∧ ¬ (slopes 4).Matches slopesFired curve := by
  have aligned : (slopes 4).Aligned slopesFired 0 4 2 :=
    slopes_aligned (by norm_num) (by norm_num [nearness]) (by decide +kernel) (by decide +kernel)
  have joined : (slopes 4).curveOf slopesFired = .ok [⟨0, 1⟩, ⟨4, 1⟩, ⟨8, 1⟩] :=
    slopes_curve [0, 4, 8] (by decide +kernel) (by decide +kernel)
      (by decide +kernel) (by decide +kernel) (by decide +kernel)
  have onCurve : Curve.degreeAt? [⟨0, 1⟩, ⟨4, 1⟩, ⟨8, 1⟩] 2 = some (1 : Exact) := by
    decide +kernel
  have top : (slopes 4).Tops slopesFired 2 0.5 := by
    constructor
    · exact .inr ⟨⟨"R1", "short", 1⟩, by decide +kernel, by decide +kernel⟩
    · have bounded : ∀ activation ∈ slopesFired,
          ∀ z ∈ (slopes 4).cutAt? activation 2, z ≤ 0.5 := by decide +kernel
      rintro z (rfl | ⟨activation, given, reached⟩)
      · decide +kernel
      · exact bounded activation given z reached
  refine ⟨aligned, _, joined, onCurve, top, fun matched => ?_⟩
  obtain ⟨y, alsoOnCurve, alsoTop⟩ := matched 2 (by decide +kernel) (by decide +kernel)
  obtain rfl := Option.some_inj.mp (onCurve.symm.trans alsoOnCurve)
  exact absurd (top.2 alsoTop.1) (by decide +kernel)

end RuleAdvisor.Fuzzy
