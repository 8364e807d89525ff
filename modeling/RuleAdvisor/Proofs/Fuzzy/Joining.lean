import RuleAdvisor.Proofs.Fuzzy.Area
import RuleAdvisor.Proofs.Fuzzy.Firing

/-!
The joined curve of all conclusions. It is found exactly if there is an end to the samples and all
that fired name a category, and it is made of their corners and of their shapes, each cut off at its
strength. Over a well-formed output it lies between 0 and 1 over positions that are apart, and it is
above 0 exactly where a conclusion of positive strength is. A strength that is no number adds
nothing to it.
-/

namespace RuleAdvisor.Fuzzy

open Exact

def Clip.Sound (clip : Clip Exact) : Prop := IsStrength clip.strength ∧ clip.shape.WellFormed

section Degrees

variable {clips : List (Clip Exact)}

theorem raised_rat (p q : Rat) : (if rat p < rat q then rat q else rat p) = rat (max p q) := by
  simp only [rat_lt]
  split
  · next below => rw [max_eq_right below.le]
  · next above => rw [max_eq_left (not_lt.mp above)]

theorem Clip.Sound.exists_raised {clip : Clip Exact} (sound : clip.Sound) (x : Rat) {p : Rat}
    (nonneg : 0 ≤ p) (atMostOne : p ≤ 1) :
    ∃ q, (if rat p < Number.least clip.strength (clip.shape.degree (rat x))
        then Number.least clip.strength (clip.shape.degree (rat x)) else rat p) = rat q
      ∧ 0 ≤ q ∧ q ≤ 1
      ∧ (0 < q ↔ 0 < p ∨ 0 < clip.strength ∧ 0 < clip.shape.degree (rat x)) := by
  obtain ⟨strength, shape⟩ := clip
  obtain ⟨m, degree, alsoNonneg, alsoAtMostOne⟩ := (isDegree_iff _).mp (sound.2.isDegree x)
  rcases sound.1 with noNumber | isDegree
  · rw [noNumber, least_nan_left, if_neg (fun above => (ne_nan_of_lt above).2 rfl)]
    refine ⟨p, rfl, nonneg, atMostOne, ?_⟩
    rw [or_iff_left fun strong => (ne_nan_of_lt strong.1).2 rfl]
  · obtain ⟨s, rational, sNonneg, sAtMostOne⟩ := (isDegree_iff _).mp isDegree
    rw [rational, degree, least_rat, raised_rat, rat_pos, rat_pos]
    exact ⟨max p (min s m), rfl, le_max_of_le_left nonneg,
      max_le atMostOne (min_le_of_left_le sAtMostOne), by rw [lt_max_iff, lt_min_iff]⟩

theorem foldl_joined (x : Rat) {start : Rat} (nonneg : 0 ≤ start) (atMostOne : start ≤ 1)
    (sound : ∀ clip ∈ clips, clip.Sound) :
    ∃ p, clips.foldl (fun degree clip =>
        let clipped := Number.least clip.strength (clip.shape.degree (rat x))
        if degree < clipped then clipped else degree) (rat start) = rat p
      ∧ 0 ≤ p ∧ p ≤ 1
      ∧ (0 < p ↔ 0 < start
        ∨ ∃ clip ∈ clips, 0 < clip.strength ∧ 0 < clip.shape.degree (rat x)) := by
  induction clips generalizing start with
  | nil => exact ⟨start, rfl, nonneg, atMostOne, by simp⟩
  | cons clip rest ih =>
      obtain ⟨q, raised, qNonneg, qAtMostOne, higher⟩ :=
        (sound clip List.mem_cons_self).exists_raised x nonneg atMostOne
      obtain ⟨p, joined, pNonneg, pAtMostOne, positive⟩ := ih qNonneg qAtMostOne
        fun other member => sound other (List.mem_cons_of_mem _ member)
      refine ⟨p, ?_, pNonneg, pAtMostOne, ?_⟩
      · rw [List.foldl_cons]
        simp only [raised]
        exact joined
      · rw [positive, higher, List.exists_mem_cons_iff, or_assoc]

theorem joinedDegree_rat (sound : ∀ clip ∈ clips, clip.Sound) (x : Rat) :
    IsDegree (Output.joinedDegree clips (rat x))
      ∧ (0 < Output.joinedDegree clips (rat x)
        ↔ ∃ clip ∈ clips, 0 < clip.strength ∧ 0 < clip.shape.degree (rat x)) := by
  obtain ⟨p, joined, nonneg, atMostOne, positive⟩ :=
    foldl_joined x (le_refl 0) zero_le_one sound
  have result : Output.joinedDegree clips (rat x) = rat p := by
    rw [Output.joinedDegree, literal_eq, Nat.cast_zero]
    exact joined
  rw [result, isDegree_rat, rat_pos, positive, or_iff_right (lt_irrefl _)]
  exact ⟨⟨nonneg, atMostOne⟩, Iff.rfl⟩

theorem joinedDegree_answering (byZero : Exact → Exact) (sound : ∀ clip ∈ clips, clip.Sound)
    (x : Rat) :
    @Output.joinedDegree Exact (answering byZero) clips (rat x)
      = Output.joinedDegree clips (rat x) := by
  apply List.foldl_ext
  intro degree clip member
  simp only [(sound clip member).2.degree_answering byZero]
  rfl

end Degrees

/-- The activation lifts the joined curve above 0 at this position. -/
def Output.Raises (output : Output Exact) (activation : Activation Exact) (x : Exact) : Prop :=
  0 < activation.strength ∧ ∃ shape,
    output.categories.get? activation.conclusion = some shape ∧ 0 < shape.degree x

/-- The positions sampled: those of the grid together with the corners of the conclusions. -/
def Output.Places (output : Output Exact) (activations : List (Activation Exact))
    (positions : List Exact) : Prop :=
  ∃ corners, activations.mapM (output.corners (output.domain.samples output.resolution))
      = .ok corners
    ∧ positions = mergePositions (output.domain.samples output.resolution) corners.flatten

theorem Output.Places.apart {output : Output Exact} {activations : List (Activation Exact)}
    {positions : List Exact} (places : output.Places activations positions) :
    Apart positions := by
  obtain ⟨corners, _, rfl⟩ := places
  exact mergePositions_apart _ _

/-- There is an end to the samples. -/
def Output.Ends {α : Type} [Number α] (output : Output α) : Prop :=
  (output.domain.samples? output.resolution).isSome

theorem Output.ends_of_rational {output : Output Exact} {least greatest step : Rat}
    (domain : output.domain = ⟨rat least, rat greatest⟩) (resolution : output.resolution = rat step)
    (ordered : least < greatest) (positive : 0 < step) : output.Ends := by
  rw [Output.Ends, domain, resolution, samples?_eq ordered positive]
  rfl

theorem Output.grid_of_ends {α : Type} [Number α] {output : Output α} (ends : output.Ends) :
    output.grid = .ok (output.domain.samples output.resolution) := by
  obtain ⟨grid, sampled⟩ := Option.isSome_iff_exists.mp ends
  rw [Output.grid, Domain.samples, sampled, Option.getD_some]

theorem Output.curveOf_of_endless {α : Type} [Number α] {output : Output α}
    (endless : ¬ output.Ends) (activations : List (Activation α)) :
    output.curveOf activations = .error .endless := by
  have unsampled : output.domain.samples? output.resolution = none :=
    Option.not_isSome_iff_eq_none.mp endless
  rw [curveOf, Output.grid, unsampled]
  rfl

def firedOf {α : Type} [Number α] (activations : List (Activation α)) : List (Activation α) :=
  activations.filter fun activation => !decide (activation.strength ≤ 0)

theorem Output.curveOf_eq {α : Type} [Number α] {output : Output α}
    {activations : List (Activation α)} {corners : List (List α)} {clips : List (Clip α)}
    (ends : output.Ends) (cornersFound : activations.mapM
      (output.corners (output.domain.samples output.resolution)) = .ok corners)
    (clipsFound : (firedOf activations).mapM output.clip = .ok clips) :
    output.curveOf activations = .ok
      ((mergePositions (output.domain.samples output.resolution) corners.flatten).map
        fun x => ⟨x, joinedDegree clips x⟩) := by
  rw [firedOf] at clipsFound
  rw [curveOf, grid_of_ends ends]
  simp only [bind, Except.bind, cornersFound, clipsFound]
  rfl

theorem mem_firedOf {α : Type} [Number α] {activations : List (Activation α)}
    {activation : Activation α} :
    activation ∈ firedOf activations
      ↔ activation ∈ activations ∧ ¬ activation.strength ≤ 0 := by
  simp [firedOf]

namespace Output

section Categories

variable {α : Type} {output : Output α}

theorem shapeOf_eq_ok_iff {category : String} {shape : Shape α} :
    output.shapeOf category = .ok shape ↔ output.categories.get? category = some shape := by
  unfold shapeOf
  split
  · next named => simp [named]
  · next missing => simp [missing]

theorem exists_shapeOf_iff {category : String} :
    (∃ shape, output.shapeOf category = .ok shape) ↔ category ∈ output.categories.keys := by
  rw [← Record.isSome_get?_iff, Option.isSome_iff_exists]
  exact exists_congr fun _ => shapeOf_eq_ok_iff

theorem shapeOf_eq_error_iff {category : String} {refusal : Refusal α} :
    output.shapeOf category = .error refusal
      ↔ category ∉ output.categories.keys ∧ refusal = .unknownConclusion output.name category := by
  rw [← exists_shapeOf_iff]
  unfold shapeOf
  split
  · simp
  · simp [eq_comm]

theorem clip_eq_ok_iff {activation : Activation α} {clip : Clip α} :
    output.clip activation = .ok clip
      ↔ output.shapeOf activation.conclusion = .ok clip.shape
        ∧ clip.strength = activation.strength := by
  unfold Output.clip
  cases output.shapeOf activation.conclusion with
  | error refusal => simp [Except.map]
  | ok shape =>
      obtain ⟨strength, cut⟩ := clip
      simp [Except.map, and_comm, eq_comm]

variable [Number α]

theorem exists_curveOf (ends : output.Ends) {activations : List (Activation α)}
    (named : ∀ activation ∈ activations,
      0 < activation.strength ∨ ¬ activation.strength ≤ 0 →
        activation.conclusion ∈ output.categories.keys) :
    ∃ curve, output.curveOf activations = .ok curve := by
  have eachCorners : ∀ activation ∈ activations, ∃ own,
      output.corners (output.domain.samples output.resolution) activation = .ok own := by
    intro activation given
    unfold Output.corners
    split
    · next between =>
        obtain ⟨shape, found⟩ :=
          exists_shapeOf_iff.mpr (named activation given (.inl between.1))
        exact ⟨_, by rw [found]; rfl⟩
    · exact ⟨[], rfl⟩
  have eachClip : ∀ activation ∈ firedOf activations, ∃ clip,
      output.clip activation = .ok clip := by
    intro activation fired
    obtain ⟨given, strong⟩ := mem_firedOf.mp fired
    obtain ⟨shape, found⟩ := exists_shapeOf_iff.mpr (named activation given (.inr strong))
    exact ⟨⟨activation.strength, shape⟩, clip_eq_ok_iff.mpr ⟨found, rfl⟩⟩
  obtain ⟨corners, cornersFound⟩ := exists_mapM_eq_ok eachCorners
  obtain ⟨clips, clipsFound⟩ := exists_mapM_eq_ok eachClip
  exact ⟨_, curveOf_eq ends cornersFound clipsFound⟩

theorem exists_of_curveOf_error (ends : output.Ends) {activations : List (Activation α)}
    {refusal : Refusal α} (refused : output.curveOf activations = .error refusal) :
    ∃ activation ∈ activations, (0 < activation.strength ∨ ¬ activation.strength ≤ 0)
      ∧ output.shapeOf activation.conclusion = .error refusal := by
  -- The corners are looked for before the conclusions are cut off, so theirs is the first refusal.
  cases cornersFound : activations.mapM
      (output.corners (output.domain.samples output.resolution)) with
  | error first =>
      simp only [curveOf, grid_of_ends ends, cornersFound, bind, Except.bind,
        Except.error.injEq] at refused
      subst refused
      obtain ⟨activation, given, failed⟩ := exists_of_mapM_error cornersFound
      unfold Output.corners at failed
      split at failed
      · next strong => exact ⟨activation, given, .inl strong.1, map_eq_error_iff.mp failed⟩
      · cases failed
  | ok corners =>
      cases clipsFound : (firedOf activations).mapM output.clip with
      | error first =>
          rw [firedOf] at clipsFound
          simp only [curveOf, grid_of_ends ends, cornersFound, clipsFound, bind, Except.bind,
            Except.error.injEq] at refused
          subst refused
          obtain ⟨activation, fired, failed⟩ := exists_of_mapM_error clipsFound
          obtain ⟨given, strong⟩ := mem_firedOf.mp fired
          exact ⟨activation, given, .inr strong, map_eq_error_iff.mp failed⟩
      | ok clips =>
          rw [curveOf_eq ends cornersFound clipsFound] at refused
          cases refused

end Categories

section Parts

variable {output : Output Exact}

/-- The curve cut off at the activation's strength bends here, between two positions of the grid. -/
def Bends (output : Output Exact) (grid : List Exact) (activation : Activation Exact) (x : Exact) :
    Prop :=
  (0 < activation.strength ∧ activation.strength < 1)
    ∧ ∃ shape, output.shapeOf activation.conclusion = .ok shape
      ∧ x ∈ shape.crossings activation.strength grid

variable {grid : List Exact}

theorem mem_corners_iff {activation : Activation Exact} {own : List Exact}
    (found : output.corners grid activation = .ok own) (x : Exact) :
    x ∈ own ↔ output.Bends grid activation x := by
  unfold Output.corners at found
  unfold Bends
  split at found
  · next between =>
      rw [and_iff_right between]
      cases named : output.shapeOf activation.conclusion with
      | error refusal => simp [named, Except.map] at found
      | ok shape =>
          simp only [named, Except.map, Except.ok.injEq] at found
          simp [← found]
  · next outside =>
      cases found
      exact iff_of_false List.not_mem_nil fun bends => outside bends.1

variable {activations : List (Activation Exact)}

theorem mem_allCorners_iff {corners : List (List Exact)}
    (walked : activations.mapM (output.corners grid) = .ok corners) (x : Exact) :
    x ∈ corners.flatten ↔ ∃ activation ∈ firedOf activations, output.Bends grid activation x := by
  rw [List.mem_flatten]
  constructor
  · rintro ⟨own, listed, member⟩
    obtain ⟨activation, given, found⟩ := exists_of_mem_mapM walked listed
    have bends := (mem_corners_iff found x).mp member
    exact ⟨activation, mem_firedOf.mpr ⟨given, not_le_of_below bends.1.1⟩, bends⟩
  · rintro ⟨activation, fired, bends⟩
    obtain ⟨own, listed, found⟩ := exists_mem_of_mapM walked (mem_firedOf.mp fired).1
    exact ⟨own, listed, (mem_corners_iff found x).mpr bends⟩

theorem mem_clips_iff {clips : List (Clip Exact)}
    (walked : (firedOf activations).mapM output.clip = .ok clips) (clip : Clip Exact) :
    clip ∈ clips ↔ ∃ activation ∈ firedOf activations, output.clip activation = .ok clip := by
  constructor
  · exact exists_of_mem_mapM walked
  · rintro ⟨activation, fired, clipped⟩
    obtain ⟨same, listed, alsoClipped⟩ := exists_mem_of_mapM walked fired
    rw [clipped, Except.ok.injEq] at alsoClipped
    rwa [alsoClipped]

theorem exists_clip_iff_raises {clips : List (Clip Exact)}
    (walked : (firedOf activations).mapM output.clip = .ok clips) (x : Exact) :
    (∃ clip ∈ clips, 0 < clip.strength ∧ 0 < clip.shape.degree x)
      ↔ ∃ activation ∈ activations, output.Raises activation x := by
  constructor
  · rintro ⟨clip, listed, strong, above⟩
    obtain ⟨activation, fired, clipped⟩ := (mem_clips_iff walked clip).mp listed
    obtain ⟨named, strength⟩ := clip_eq_ok_iff.mp clipped
    rw [strength] at strong
    exact ⟨activation, (mem_firedOf.mp fired).1, strong, clip.shape,
      shapeOf_eq_ok_iff.mp named, above⟩
  · rintro ⟨activation, given, strong, shape, named, above⟩
    have fired := mem_firedOf.mpr ⟨given, not_le_of_below strong⟩
    have clipped : output.clip activation = .ok ⟨activation.strength, shape⟩ :=
      clip_eq_ok_iff.mpr ⟨shapeOf_eq_ok_iff.mpr named, rfl⟩
    exact ⟨_, (mem_clips_iff walked _).mpr ⟨activation, fired, clipped⟩, strong, above⟩

theorem curveOf_eq_ok_iff {curve : Curve Exact} :
    output.curveOf activations = .ok curve
      ↔ output.Ends ∧ ∃ positions clips, output.Places activations positions
        ∧ (firedOf activations).mapM output.clip = .ok clips
        ∧ curve = positions.map fun x => ⟨x, joinedDegree clips x⟩ := by
  by_cases ends : output.Ends
  · rw [and_iff_right ends]
    constructor
    · intro joined
      cases cornersFound : activations.mapM
          (output.corners (output.domain.samples output.resolution)) with
      | error refusal =>
          simp only [curveOf, grid_of_ends ends, cornersFound, bind, Except.bind, reduceCtorEq]
            at joined
      | ok corners =>
          cases clipsFound : (firedOf activations).mapM output.clip with
          | error refusal =>
              rw [firedOf] at clipsFound
              simp only [curveOf, grid_of_ends ends, cornersFound, clipsFound, bind, Except.bind,
                reduceCtorEq] at joined
          | ok clips =>
              have found := curveOf_eq ends cornersFound clipsFound
              exact ⟨_, clips, ⟨corners, cornersFound, rfl⟩, rfl,
                Except.ok.inj (joined.symm.trans found)⟩
    · rintro ⟨_, clips, ⟨corners, cornersFound, rfl⟩, clipsFound, rfl⟩
      exact curveOf_eq ends cornersFound clipsFound
  · rw [curveOf_of_endless ends]
    exact iff_of_false (fun joined => nomatch joined) fun parts => ends parts.1

/-- A curve is found exactly if there is an end to the samples and every conclusion that fired names
a category. -/
theorem exists_curveOf_iff :
    (∃ curve, output.curveOf activations = .ok curve)
      ↔ output.Ends ∧ ∀ activation ∈ firedOf activations,
        activation.conclusion ∈ output.categories.keys := by
  constructor
  · rintro ⟨curve, joined⟩
    obtain ⟨ends, _, _, _, clipsFound, _⟩ := curveOf_eq_ok_iff.mp joined
    refine ⟨ends, fun activation fired => ?_⟩
    obtain ⟨clip, _, clipped⟩ := exists_mem_of_mapM clipsFound fired
    exact exists_shapeOf_iff.mp ⟨_, (clip_eq_ok_iff.mp clipped).1⟩
  · rintro ⟨ends, named⟩
    apply exists_curveOf ends
    intro activation given strong
    exact named activation (mem_firedOf.mpr ⟨given, strong.elim not_le_of_below id⟩)

end Parts

/-- What drawing the curve relies on: a domain with a grid on it, and well-formed shapes. -/
structure Drawable (output : Output Exact) : Prop where
  domain : output.domain.WellFormed
  resolutionFinite : Number.isFinite output.resolution = true
  resolutionPositive : 0 < output.resolution
  resolutionFits : output.resolution ≤ output.domain.greatest - output.domain.least
  shapes : ∀ entry ∈ output.categories.entries, entry.2.WellFormed

theorem WellFormed.drawable {output : Output Exact} (valid : output.WellFormed) :
    output.Drawable where
  domain := valid.variableWellFormed.domain
  resolutionFinite := valid.resolutionFinite
  resolutionPositive := valid.resolutionPositive
  resolutionFits := valid.resolutionFits
  shapes := valid.variableWellFormed.shapes

namespace Drawable

variable {output : Output Exact} (drawable : output.Drawable)

include drawable

theorem exists_ends : ∃ least greatest step : Rat, output.domain = ⟨rat least, rat greatest⟩
    ∧ output.resolution = rat step ∧ least < greatest ∧ 0 < step ∧ step ≤ greatest - least := by
  obtain ⟨least, greatest, ends, ordered⟩ := drawable.domain.exists_ends
  obtain ⟨step, resolution⟩ := (isFinite_iff _).mp drawable.resolutionFinite
  have positive := drawable.resolutionPositive
  rw [resolution, rat_pos] at positive
  have fits := drawable.resolutionFits
  rw [resolution, ends, rat_sub, rat_le] at fits
  exact ⟨least, greatest, step, ends, resolution, ordered, positive, fits⟩

theorem ends : output.Ends := by
  obtain ⟨_, _, _, domain, resolution, ordered, positive, -⟩ := drawable.exists_ends
  exact ends_of_rational domain resolution ordered positive

theorem exists_grid : ∃ least greatest step : Rat, output.domain = ⟨rat least, rat greatest⟩
    ∧ output.resolution = rat step ∧ least < greatest ∧ 0 < step
    ∧ ∀ x ∈ output.domain.samples output.resolution,
      Within least (greatest + nearness * step) x := by
  obtain ⟨least, greatest, step, ends, resolution, ordered, positive, -⟩ := drawable.exists_ends
  refine ⟨least, greatest, step, ends, resolution, ordered, positive, ?_⟩
  rw [ends, resolution]
  exact samples_within ordered positive

theorem shape_of_shapeOf {category : String} {shape : Shape Exact}
    (named : output.shapeOf category = .ok shape) : shape.WellFormed :=
  drawable.shapes _ ((Record.get?_eq_some_iff _ _ _).mp (shapeOf_eq_ok_iff.mp named))

section Grid

variable {least reach : Rat} {grid : List Exact} (within : ∀ x ∈ grid, Within least reach x)

include within

theorem bends_within {activation : Activation Exact} (between : IsStrength activation.strength)
    {x : Exact} (bends : output.Bends grid activation x) : Within least reach x := by
  obtain ⟨⟨strong, _⟩, shape, named, crossed⟩ := bends
  obtain ⟨level, strength, _⟩ := (isDegree_iff _).mp (between.isDegree_of_pos strong)
  rw [strength] at crossed
  exact Shape.crossings_within (drawable.shape_of_shapeOf named) within x crossed

theorem corners_answering (byZero : Exact → Exact) {activation : Activation Exact}
    (sound : activation.Sound output) :
    @Output.corners Exact (answering byZero) output grid activation
      = output.corners grid activation := by
  obtain ⟨shape, found⟩ := exists_shapeOf_iff.mpr sound.1
  unfold Output.corners
  split
  · next strong =>
      obtain ⟨level, strength, _⟩ := (isDegree_iff _).mp (sound.2.isDegree_of_pos strong.1)
      simp only [found, strength, Except.map,
        Shape.crossings_answering byZero (drawable.shape_of_shapeOf found) within]
  · rfl

end Grid

section Between

variable {activations : List (Activation Exact)}
  (between : ∀ activation ∈ activations, IsStrength activation.strength)

include between

theorem clips_sound {clips : List (Clip Exact)}
    (walked : (firedOf activations).mapM output.clip = .ok clips) : ∀ clip ∈ clips, clip.Sound := by
  intro clip listed
  obtain ⟨activation, fired, clipped⟩ := (mem_clips_iff walked clip).mp listed
  obtain ⟨named, strength⟩ := clip_eq_ok_iff.mp clipped
  refine ⟨?_, drawable.shape_of_shapeOf named⟩
  rw [strength]
  exact between activation (mem_firedOf.mp fired).1

variable {least reach : Rat}
  (onGrid : ∀ x ∈ output.domain.samples output.resolution, Within least reach x)

include onGrid

theorem allCorners_within {corners : List (List Exact)}
    (walked : activations.mapM (output.corners (output.domain.samples output.resolution))
      = .ok corners) : ∀ x ∈ corners.flatten, Within least reach x := by
  intro x member
  obtain ⟨activation, fired, bends⟩ := (mem_allCorners_iff walked x).mp member
  exact drawable.bends_within onGrid (between activation (mem_firedOf.mp fired).1) bends

theorem places_within {positions : List Exact} (places : output.Places activations positions) :
    ∀ x ∈ positions, Within least reach x := by
  obtain ⟨corners, walked, rfl⟩ := places
  intro x member
  rcases mem_mergePositions member with grid | corner
  · exact onGrid x grid
  · exact drawable.allCorners_within between onGrid walked x corner

end Between

section Sound

variable {activations : List (Activation Exact)}
  (sound : ∀ activation ∈ activations, activation.Sound output) {least reach : Rat}
  (onGrid : ∀ x ∈ output.domain.samples output.resolution, Within least reach x)

include sound onGrid

/-- A curve is found, sampled where the grid is, at positions that are apart, and above 0 exactly
where an activation raises it. -/
theorem exists_curve : ∃ curve, output.curveOf activations = .ok curve
    ∧ (∀ sample ∈ curve, sample.Sound least reach)
    ∧ output.Places activations curve.positions
    ∧ ∀ sample ∈ curve, 0 < sample.degree
      ↔ ∃ activation ∈ activations, output.Raises activation sample.position := by
  obtain ⟨curve, joined⟩ := exists_curveOf_iff.mpr ⟨drawable.ends, fun activation fired =>
    (sound activation (mem_firedOf.mp fired).1).1⟩
  obtain ⟨-, positions, clips, places, clipsFound, rfl⟩ := curveOf_eq_ok_iff.mp joined
  have between := fun activation given => (sound activation given).2
  have clipsSound := drawable.clips_sound between clipsFound
  -- Every position is rational, whether it is on the grid or a corner.
  have sampled : ∀ sample ∈ positions.map fun x => (⟨x, joinedDegree clips x⟩ : Sample Exact),
      ∃ q, sample = ⟨rat q, joinedDegree clips (rat q)⟩ ∧ least ≤ q ∧ q ≤ reach := by
    intro sample member
    obtain ⟨x, listed, rfl⟩ := List.mem_map.mp member
    obtain ⟨q, rfl, lower, upper⟩ := drawable.places_within between onGrid places x listed
    exact ⟨q, rfl, lower, upper⟩
  refine ⟨_, joined, ?_, ?_, ?_⟩
  · intro sample member
    obtain ⟨q, rfl, within⟩ := sampled sample member
    exact ⟨(within_rat _ _ _).mpr within, (joinedDegree_rat clipsSound q).1⟩
  · simpa [Curve.positions, List.map_map, Function.comp_def] using places
  · intro sample member
    obtain ⟨q, rfl, _⟩ := sampled sample member
    rw [← exists_clip_iff_raises clipsFound (rat q)]
    exact (joinedDegree_rat clipsSound q).2

theorem curveOf_answering (byZero : Exact → Exact) :
    @Output.curveOf Exact (answering byZero) output activations
      = output.curveOf activations := by
  have sameGrid : @Domain.samples? Exact (answering byZero) output.domain output.resolution
      = output.domain.samples? output.resolution := by
    obtain ⟨_, _, step, ends, resolution, _, positive, _⟩ := drawable.exists_ends
    rw [ends, resolution]
    exact samples?_answering byZero positive
  have sameSamples : @Domain.samples Exact (answering byZero) output.domain output.resolution
      = output.domain.samples output.resolution := congrArg (·.getD []) sameGrid
  obtain ⟨curve, joined, _⟩ := drawable.exists_curve sound onGrid
  obtain ⟨-, positions, clips, places, clipsFound, rfl⟩ := curveOf_eq_ok_iff.mp joined
  have between := fun activation given => (sound activation given).2
  have within := drawable.places_within between onGrid places
  obtain ⟨corners, cornersFound, rfl⟩ := places
  have sameEnds : (@Domain.samples? Exact (answering byZero) output.domain
      output.resolution).isSome := by
    rw [sameGrid]
    exact drawable.ends
  have sameCorners : activations.mapM (@Output.corners Exact (answering byZero) output
      (@Domain.samples Exact (answering byZero) output.domain output.resolution))
      = .ok corners := by
    rw [← cornersFound, sameSamples]
    exact mapM_congr fun activation member =>
      drawable.corners_answering onGrid byZero (sound activation member)
  -- The clips involve no division, and so are found as before.
  have onOther := @curveOf_eq Exact (answering byZero) output activations corners clips
    sameEnds sameCorners clipsFound
  rw [onOther, joined, sameSamples]
  apply congrArg Except.ok
  apply List.map_congr_left
  intro x member
  obtain ⟨q, rfl, _⟩ := within x member
  rw [joinedDegree_answering byZero (drawable.clips_sound between clipsFound)]

end Sound

end Drawable
end Output

end RuleAdvisor.Fuzzy
