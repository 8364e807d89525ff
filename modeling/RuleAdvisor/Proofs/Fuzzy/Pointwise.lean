import RuleAdvisor.Proofs.Fuzzy.Exactness
import RuleAdvisor.Proofs.Fuzzy.Rearranging

/-!
The joined curve sample by sample. It is refused exactly if a conclusion of positive strength names
no category. Otherwise its samples begin with the domain and are further than the tolerance apart,
wherever the shapes bend, and at each of them it is the greatest of the cut-off conclusions. For
that the breakpoints need not be on the grid, which is needed only between samples.
-/

namespace RuleAdvisor.Fuzzy

open Exact

namespace Output

/-- The activation concludes, with some strength, what is no category. -/
def Misnames (output : Output Exact) (activation : Activation Exact) : Prop :=
  0 < activation.strength ∧ activation.conclusion ∉ output.categories.keys

/-- The curve has the greatest cut-off degree at every sample, and its samples are in order. -/
structure Joins (output : Output Exact) (activations : List (Activation Exact))
    (curve : Curve Exact) : Prop where
  paired : curve.positions.length = curve.degrees.length
  first : curve.positions.head? = some output.domain.least
  ascending : curve.positions.Pairwise (· < ·)
  apart : Apart curve.positions
  tops : ∀ sample ∈ curve, output.Tops activations sample.position sample.degree
  nonneg : ∀ sample ∈ curve, 0 ≤ sample.degree
  atMost : ∀ sample ∈ curve, ∀ greatest,
    IsGreatest {strength | ∃ activation ∈ activations, strength = activation.strength} greatest →
      sample.degree ≤ greatest

section Refusals

variable {output : Output Exact} {activations : List (Activation Exact)}
  (between : ∀ activation ∈ activations, IsDegree activation.strength)

include between

theorem not_idle_iff {activation : Activation Exact} (given : activation ∈ activations) :
    ¬ activation.strength ≤ 0 ↔ 0 < activation.strength := by
  obtain ⟨s, strength, -⟩ := (isDegree_iff _).mp (between activation given)
  rw [strength, literal_eq, rat_lt, rat_le, not_le]

theorem misnamed_of_curveOf_error (ends : output.Ends) {refusal : Refusal Exact}
    (refused : output.curveOf activations = .error refusal) :
    ∃ activation ∈ activations, output.Misnames activation
      ∧ refusal = .unknownConclusion output.name activation.conclusion := by
  obtain ⟨activation, given, fired, failed⟩ := exists_of_curveOf_error ends refused
  obtain ⟨unknown, named⟩ := shapeOf_eq_error_iff.mp failed
  have strong := fired.elim id (not_idle_iff between given).mp
  exact ⟨activation, given, ⟨strong, unknown⟩, named⟩

theorem exists_curveOf_iff_named (ends : output.Ends) :
    (∃ curve, output.curveOf activations = .ok curve)
      ↔ ∀ activation ∈ activations, ¬ output.Misnames activation := by
  rw [exists_curveOf_iff, and_iff_right ends]
  constructor
  · rintro named activation given ⟨strong, unknown⟩
    exact unknown (named activation (mem_firedOf.mpr ⟨given, not_le_of_below strong⟩))
  · intro named activation fired
    obtain ⟨given, notIdle⟩ := mem_firedOf.mp fired
    by_contra unknown
    exact named activation given ⟨(not_idle_iff between given).mp notIdle, unknown⟩

end Refusals

namespace Drawable

variable {output : Output Exact} (drawable : output.Drawable)
  {activations : List (Activation Exact)}
  (between : ∀ activation ∈ activations, IsDegree activation.strength)

include drawable between

theorem exists_positions {positions : List Exact} (places : output.Places activations positions) :
    ∃ kept : List Rat, positions = kept.map rat ∧ kept.Pairwise (· < ·)
      ∧ (kept.map rat).head? = some output.domain.least := by
  obtain ⟨least, greatest, step, ends, resolution, ordered, positive, onGrid⟩ :=
    drawable.exists_grid
  obtain ⟨corners, walked, rfl⟩ := places
  have strengths := fun activation given => (between activation given).isStrength
  have inside := drawable.allCorners_within strengths onGrid walked
  obtain ⟨extra, bends⟩ := exists_map_rat fun x member => (inside x member).exists_rat
  have grid := samples_eq_samplePoints ordered positive
  rw [← ends, ← resolution] at grid
  obtain ⟨kept, merged, merges⟩ :=
    exists_mergePositions_rat (samplePoints least greatest step) extra
  have lowest : ∀ x, x ∈ samplePoints least greatest step ∨ x ∈ extra → least ≤ x := by
    rintro x (sampled | bent)
    · have within := onGrid (rat x) (by rw [grid]; exact List.mem_map_of_mem sampled)
      exact ((within_rat _ _ _).mp within).1
    · have within := inside (rat x) (by rw [bends]; exact List.mem_map_of_mem bent)
      exact ((within_rat _ _ _).mp within).1
  refine ⟨kept, by rw [grid, bends, merged], merges.ascending, ?_⟩
  rw [List.head?_map, merges.head?_eq (.inl (List.mem_of_head? head?_samplePoints)) lowest, ends]
  rfl

theorem cutAt?_rat_of_mem {activation : Activation Exact} (given : activation ∈ activations)
    {x : Rat} {z : Exact} (reached : output.cutAt? activation (rat x) = some z) :
    ∃ s m, activation.strength = rat s ∧ z = rat (min s m) ∧ 0 ≤ s ∧ 0 ≤ m := by
  refine cutAt?_rat (between activation given) (fun shape named => ?_) reached
  exact (drawable.shape_of_shapeOf (shapeOf_eq_ok_iff.mpr named)).isDegree x

theorem cutAt?_of_idle {activation : Activation Exact} (given : activation ∈ activations)
    (idle : activation.strength ≤ 0) {x : Rat} {z : Exact}
    (reached : output.cutAt? activation (rat x) = some z) : z = 0 := by
  obtain ⟨s, m, strength, rfl, nonneg, alsoNonneg⟩ :=
    drawable.cutAt?_rat_of_mem between given reached
  rw [strength, literal_eq, rat_le, Nat.cast_zero] at idle
  rw [le_antisymm idle nonneg, min_eq_left alsoNonneg, literal_eq, Nat.cast_zero]

/-- At every rational the joined degree is the greatest of the cut-off conclusions. -/
theorem tops_joinedDegree {clips : List (Clip Exact)}
    (clipsFound : (firedOf activations).mapM output.clip = .ok clips) (x : Rat) :
    output.Tops activations (rat x) (joinedDegree clips (rat x)) := by
  have strengths := fun activation given => (between activation given).isStrength
  have sound := drawable.clips_sound strengths clipsFound
  obtain ⟨number, above, taken⟩ := joinedDegree_spec clips (rat x)
  constructor
  · refine taken.imp_right ?_
    rintro ⟨clip, listed, atClip⟩
    obtain ⟨activation, fired, clipped⟩ := (mem_clips_iff clipsFound clip).mp listed
    exact ⟨activation, (mem_firedOf.mp fired).1, cutAt?_eq_some_iff.mpr ⟨clip, clipped, atClip⟩⟩
  -- What has no strength is not among the clips, and is 0 at `x`.
  · have nonneg : 0 ≤ joinedDegree clips (rat x) := (joinedDegree_rat sound x).1.1
    rintro z (rfl | ⟨activation, given, reached⟩)
    · exact nonneg
    · by_cases idle : activation.strength ≤ 0
      · rw [drawable.cutAt?_of_idle between given idle reached]
        exact nonneg
      · obtain ⟨clip, clipped, rfl⟩ := cutAt?_eq_some_iff.mp reached
        have listed := (mem_clips_iff clipsFound clip).mpr
          ⟨activation, mem_firedOf.mpr ⟨given, idle⟩, clipped⟩
        obtain ⟨s, m, -, height, -⟩ := drawable.cutAt?_rat_of_mem between given reached
        refine le_of_not_lt ?_ number (above clip listed)
        rw [height]
        exact Exact.noConfusion

theorem joins_of_curveOf {curve : Curve Exact} (joined : output.curveOf activations = .ok curve) :
    output.Joins activations curve := by
  obtain ⟨-, positions, clips, places, clipsFound, rfl⟩ := curveOf_eq_ok_iff.mp joined
  have sampledAt : Curve.positions (positions.map fun x => ⟨x, joinedDegree clips x⟩)
      = positions := by
    simp [Curve.positions, List.map_map, Function.comp_def]
  have apart := places.apart
  obtain ⟨kept, rfl, ascending, first⟩ := drawable.exists_positions between places
  have tops : ∀ sample ∈ (kept.map rat).map fun x => (⟨x, joinedDegree clips x⟩ : Sample Exact),
      ∃ q, sample.position = rat q ∧ output.Tops activations (rat q) sample.degree := by
    simp only [List.forall_mem_map]
    exact fun q _ => ⟨q, rfl, drawable.tops_joinedDegree between clipsFound q⟩
  constructor
  case paired => simp [Curve.positions, Curve.degrees]
  case first => rwa [sampledAt]
  case ascending =>
    rw [sampledAt, List.pairwise_map]
    exact ascending.imp (rat_lt _ _).mpr
  case apart => rwa [sampledAt]
  case tops =>
    intro sample member
    obtain ⟨q, position, top⟩ := tops sample member
    rwa [position]
  case nonneg =>
    intro sample member
    obtain ⟨q, -, top⟩ := tops sample member
    exact top.2 (.inl rfl)
  case atMost =>
    rintro sample member _ ⟨⟨activation, given, rfl⟩, upper⟩
    obtain ⟨q, -, attained, -⟩ := tops sample member
    rcases attained with atZero | ⟨other, otherGiven, reached⟩
    · rw [atZero]
      exact (between activation given).1
    · obtain ⟨s, m, strength, height, -⟩ :=
        drawable.cutAt?_rat_of_mem between otherGiven reached
      obtain ⟨t, largest, -⟩ := (isDegree_iff _).mp (between activation given)
      have below := upper ⟨other, otherGiven, rfl⟩
      rw [strength, largest, rat_le] at below
      rw [height, largest, rat_le]
      exact (min_le_left s m).trans below

/-- Over a drawable output and strengths from 0 to 1, a curve is refused exactly if a conclusion of
positive strength is no category, as an invalid state that names such a conclusion. Otherwise the
curve has the greatest cut-off degree at every sample. -/
theorem curveOf_refused_or_joins :
    ((∃ refusal, output.curveOf activations = .error refusal)
      ↔ ∃ activation ∈ activations, output.Misnames activation)
      ∧ (∀ refusal, output.curveOf activations = .error refusal →
        (∀ [NumberText Exact], refusal.report.kind = .invalidState)
          ∧ ∃ activation ∈ activations, output.Misnames activation
            ∧ refusal = .unknownConclusion output.name activation.conclusion)
      ∧ ((∀ activation ∈ activations, ¬ output.Misnames activation) →
        ∃ curve, output.curveOf activations = .ok curve ∧ output.Joins activations curve) := by
  have named := exists_curveOf_iff_named between drawable.ends
  refine ⟨⟨?_, ?_⟩, ?_, ?_⟩
  · rintro ⟨refusal, refused⟩
    obtain ⟨activation, given, misnames, -⟩ :=
      misnamed_of_curveOf_error between drawable.ends refused
    exact ⟨activation, given, misnames⟩
  · rintro ⟨activation, given, misnames⟩
    cases joined : output.curveOf activations with
    | error refusal => exact ⟨refusal, rfl⟩
    | ok curve => exact absurd misnames (named.mp ⟨curve, joined⟩ activation given)
  · intro refusal refused
    obtain ⟨activation, given, misnames, rfl⟩ :=
      misnamed_of_curveOf_error between drawable.ends refused
    exact ⟨rfl, activation, given, misnames, rfl⟩
  · intro known
    obtain ⟨curve, joined⟩ := named.mpr known
    exact ⟨curve, joined, drawable.joins_of_curveOf between joined⟩

end Drawable
end Output

theorem slopes_drawable : (slopes 2).Drawable := by
  constructor
  case domain => exact ⟨rfl, rfl, by decide +kernel⟩
  case resolutionFinite => rfl
  case resolutionPositive => decide +kernel
  case resolutionFits => decide +kernel
  case shapes =>
    intro entry listed
    have starts : ([0, 4, 8] : List Rat).head? = some 0 := rfl
    have named := (Record.get?_eq_some_iff _ _ _).mpr listed
    obtain ⟨o, outline, -⟩ := slopes_outlined 2 starts (by simp) rfl _ _ named
    exact outline.wellFormed

def slopesCut (strength : Rat) : List (Activation Exact) :=
  [⟨"R1", "short", rat (1 / 2)⟩, ⟨"R2", "dry", rat strength⟩, ⟨"R3", "long", rat (1 / 4)⟩]

/-- The conclusion that is no category is refused only if it has a strength. -/
theorem curveOf_refused_or_joins_slopes :
    (slopes 2).Drawable ∧ (∀ activation ∈ slopesCut 0, IsDegree activation.strength)
      ∧ (∃ curve, (slopes 2).curveOf (slopesCut 0) = .ok curve
        ∧ (slopes 2).Joins (slopesCut 0) curve)
      ∧ (∀ activation ∈ slopesCut (1 / 3), IsDegree activation.strength)
      ∧ ∃ refusal, (slopes 2).curveOf (slopesCut (1 / 3)) = .error refusal := by
  have between (strength : Rat) (nonneg : 0 ≤ strength) (atMostOne : strength ≤ 1) :
      ∀ activation ∈ slopesCut strength, IsDegree activation.strength := by
    simp only [slopesCut, List.forall_mem_cons, isDegree_rat]
    norm_num [nonneg, atMostOne]
  have idle := between 0 (le_refl 0) zero_le_one
  have strong := between (1 / 3) (by norm_num) (by norm_num)
  have known : ∀ activation ∈ slopesCut 0, ¬ (slopes 2).Misnames activation := by
    simp [slopesCut, Output.Misnames, slopes, Record.keys]
  have unknown : ∃ activation ∈ slopesCut (1 / 3), (slopes 2).Misnames activation := by
    refine ⟨⟨"R2", "dry", rat (1 / 3)⟩, by simp [slopesCut], by decide +kernel, ?_⟩
    simp [slopes, Record.keys]
  obtain ⟨-, -, joins⟩ := slopes_drawable.curveOf_refused_or_joins idle
  obtain ⟨refused, -⟩ := slopes_drawable.curveOf_refused_or_joins strong
  exact ⟨slopes_drawable, idle, joins known, strong, refused.mpr unknown⟩

end RuleAdvisor.Fuzzy
