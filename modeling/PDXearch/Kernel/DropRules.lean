import PDXearch.Kernel.SearchAccounts

/-!
# Drop rules

What is known of a dropped vector, for the pruners and quantizations at hand. With ratios of at
least one it is at least as far away as the vector on top of the heap (`lossless_f32`). Whatever
the ratios, nothing is dropped while the sentinel is on top (`sentinel_f32`, `sentinel_u8`). A
vector at distance zero is dropped only from below a top at distance zero (`exact_f32`); in U8 this
needs that no threshold was truncated to zero (`exact_u8`).
-/

namespace PDXearch

open Lib ExactFloat

section Order

variable {M : Type} [AddCommMonoid M] [PartialOrder M] [IsOrderedAddMonoid M]

theorem partialSum_mono {term : Nat → Nat → M} {i : Nat} (hterm : ∀ d, 0 ≤ term i d)
    {v a a' b b' : Nat} (ha : a ≤ a') (hb : b ≤ b') :
    partialSum term v i a b ≤ partialSum term v i a' b' :=
  add_le_add
    (Finset.sum_le_sum_of_subset_of_nonneg (Finset.range_mono ha) fun d _ _ => hterm d)
    (Finset.sum_le_sum_of_subset_of_nonneg (Finset.range_mono hb) fun d _ _ => hterm (v + d))

theorem partialSum_nonneg {term : Nat → Nat → M} {i : Nat} (hterm : ∀ d, 0 ≤ term i d)
    (v a b : Nat) : 0 ≤ partialSum term v i a b :=
  add_nonneg (Finset.sum_nonneg fun d _ => hterm d) (Finset.sum_nonneg fun d _ => hterm (v + d))

theorem partialAt_le_fullSum {term : Nat → Nat → M} {i : Nat} (hterm : ∀ d, 0 ≤ term i d)
    {v h w idx : Nat} (hw : w ≤ v) (hidx : idx ≤ v + h) :
    partialAt term v h w idx i ≤ fullSum term v h i := by
  rw [partialAt, fullSum]
  split_ifs
  · exact partialSum_mono hterm hw (by omega)
  · exact partialSum_mono hterm (by omega) le_rfl

theorem partialAt_nonneg {term : Nat → Nat → M} {i : Nat} (hterm : ∀ d, 0 ≤ term i d)
    (v h w idx : Nat) : 0 ≤ partialAt term v h w idx i := by
  rw [partialAt]
  split_ifs
  · exact partialSum_nonneg hterm _ _ _
  · exact partialSum_nonneg hterm _ _ _

end Order

variable {K : Type} [Field K] [LinearOrder K]

/-- A rule that is needed only if `p` holds. -/
theorem DropRule.of_imp {K E D M : Type} [Zero E] [AddCommMonoid M] [Field K] [LinearOrder K]
    [LinearOrder D] {S : Searcher K E D} {μ : DistanceMeasure S M}
    {Ok : ThresholdRead → ExactFloat K → Prop} {P : KNNCandidate K → ExactFloat K → Prop} {p : Prop}
    (h : p → DropRule μ Ok P) : DropRule μ Ok (fun x t => p → P x t) where
  anti ht hx hp := (h hp).anti ht (hx hp)
  drop hi hw hidx hok hle hp := (h hp).drop hi hw hidx hok hle

/-- No answer is excluded. -/
def AnyAnswer : ThresholdRead → ExactFloat K → Prop := fun _ _ => True

section F32

variable {S : Searcher K K (ExactFloat K)} (hS : S.pdxData.quantization = Quantization.f32)

omit [LinearOrder K] in
include hS in
theorem getPruningThreshold_f32 (t : ExactFloat K) (idx : Nat) :
    S.getPruningThreshold t idx = scale t (S.pruner.ratioAt idx) := by
  rw [Searcher.getPruningThreshold, hS]
  rfl

theorem candidate_f32_distance (c i : Nat) :
    ((DistanceMeasure.f32 S hS).candidate c i).distance =
      ofReal ((DistanceMeasure.f32 S hS).slotDistance c i) := by
  rw [DistanceMeasure.candidate, hS]
  rfl

/-- The squared distance of the vector in slot `i` of cluster `c`. -/
def squaredDistanceF32 (S : Searcher K K (ExactFloat K)) (c i : Nat) : K :=
  ∑ d ∈ Finset.range S.pdxData.numDimensions,
    (S.preparedQuery d - readF32 S.pdxData.numVerticalDimensions
      (S.pdxData.cluster c).numEmbeddings (S.pdxData.cluster c).data i d) ^ 2

theorem slotDistance_f32 (c i : Nat) :
    (DistanceMeasure.f32 S hS).slotDistance c i = squaredDistanceF32 S c i := by
  rw [DistanceMeasure.slotDistance, fullSum, partialSum_full,
    IndexPDXIVF.vertical_add_horizontal]
  rfl

/-- The candidate for the vector in slot `i` of cluster `c`. -/
def vectorF32 (S : Searcher K K (ExactFloat K)) (c i : Nat) : KNNCandidate K :=
  ⟨(S.pdxData.cluster c).indices i, ofReal (squaredDistanceF32 S c i)⟩

theorem candidate_f32 (c i : Nat) :
    (DistanceMeasure.f32 S hS).candidate c i = vectorF32 S c i := by
  refine KNNCandidate.ext rfl ?_
  rw [candidate_f32_distance, slotDistance_f32]
  rfl

/-- Nothing is dropped while the sentinel is on top. -/
theorem sentinel_f32 :
    DropRule (DistanceMeasure.f32 S hS) AnyAnswer (fun _ t => t ≠ ⊤) where
  anti ht h := ne_top_of_le_ne_top h ht
  drop _ _ _ _ hle := by
    rw [getPruningThreshold_f32 hS] at hle
    exact ne_top_of_scale_le hle

variable [IsStrictOrderedRing K]

theorem termF32_nonneg (query : Nat → K) (v n : Nat) (data : Nat → K) (i d : Nat) :
    0 ≤ termF32 query v n data i d :=
  sq_nonneg _

theorem squaredDistanceF32_nonneg (S : Searcher K K (ExactFloat K)) (c i : Nat) :
    0 ≤ squaredDistanceF32 S c i :=
  Finset.sum_nonneg fun _ _ => sq_nonneg _

theorem lossless_f32 (hdims : S.pruner.numDimensions = S.pdxData.numDimensions)
    (hlossless : S.pruner.Lossless) :
    DropRule (DistanceMeasure.f32 S hS) AnyAnswer (fun x t => t ≤ x.distance) where
  anti ht h := ht.trans h
  drop {c i idx w t} _ hw hidx _ hle := by
    rw [getPruningThreshold_f32 hS] at hle
    have hterm : ∀ d, 0 ≤ (DistanceMeasure.f32 S hS).term c i d := fun d => termF32_nonneg _ _ _ _ _ _
    have hratio := hlossless.one_le_ratioAt (hdims ▸ hidx)
    rw [candidate_f32_distance hS]
    refine (le_of_scale_le hratio (partialAt_nonneg hterm _ _ _ _) hle).trans (ofReal_le.mpr ?_)
    exact partialAt_le_fullSum hterm hw (S.pdxData.vertical_add_horizontal.symm ▸ hidx)

/-- A candidate at distance zero: a threshold with a positive ratio is reached only if the top is at
distance zero. -/
theorem exact_f32 (hdims : S.pruner.numDimensions = S.pdxData.numDimensions)
    (hpositive : S.pruner.Positive) {x₀ : KNNCandidate K} (hx₀ : x₀.distance = ofReal 0) :
    DropRule (DistanceMeasure.f32 S hS) AnyAnswer (fun x t => x = x₀ → t ≤ ofReal 0) where
  anti ht h hx := ht.trans (h hx)
  drop {c i idx w t} hi hw hidx _ hle hmatch := by
    rw [getPruningThreshold_f32 hS] at hle
    have hterm : ∀ d, 0 ≤ (DistanceMeasure.f32 S hS).term c i d := fun d => termF32_nonneg _ _ _ _ _ _
    have hratio := hpositive.ratioAt_pos (hdims ▸ hidx)
    have hfull : fullSum ((DistanceMeasure.f32 S hS).term c) S.pdxData.numVerticalDimensions
        S.pdxData.numHorizontalDimensions i = 0 :=
      ofReal_inj.mp ((candidate_f32_distance hS c i).symm.trans (hmatch ▸ hx₀))
    have hvisited := partialAt_le_fullSum hterm hw (S.pdxData.vertical_add_horizontal.symm ▸ hidx)
    have hbound := hle.trans (ofReal_le.mpr (hvisited.trans hfull.le))
    rcases eq_ofReal_or_mark t with ⟨x, rfl⟩ | rfl | rfl
    · rw [scale_ofReal, ofReal_le] at hbound
      exact ofReal_le.mpr (nonpos_of_mul_nonpos_left hbound hratio)
    · exact hbound
    · exact hbound

end F32

section U8

variable [FloorRing K] {S : Searcher K UInt8 Nat} {maxValue : UInt8}
  {params : ScalarQuantizationParams K}
  (hS : S.pdxData.quantization = Quantization.u8 maxValue params)
  (hdims : S.pdxData.numDimensions ≤ pdxMaxDims)

include hS in
theorem getPruningThreshold_u8 (t : ExactFloat K) (idx : Nat) :
    S.getPruningThreshold t idx = Quantization.truncateThreshold
      (scale (scale t (S.pruner.ratioAt idx))
        (params.quantizationScale * params.quantizationScale)) := by
  rw [Searcher.getPruningThreshold, hS]
  rfl

theorem candidate_u8_distance (c i : Nat) :
    ((DistanceMeasure.u8 S maxValue params hS hdims).candidate c i).distance =
      ofReal (((DistanceMeasure.u8 S maxValue params hS hdims).slotDistance c i : K) *
        (1 / (params.quantizationScale * params.quantizationScale))) := by
  rw [DistanceMeasure.candidate, hS]
  rfl

/-- The squared distance of the quantized vector in slot `i` of cluster `c`. -/
def squaredDistanceU8 (S : Searcher K UInt8 Nat) (c i : Nat) : Nat :=
  ∑ d ∈ Finset.range S.pdxData.numDimensions,
    sqDiff (S.preparedQuery d) (readU8 S.pdxData.numVerticalDimensions
      (S.pdxData.cluster c).numEmbeddings (S.pdxData.cluster c).data i d)

theorem slotDistance_u8 (c i : Nat) :
    (DistanceMeasure.u8 S maxValue params hS hdims).slotDistance c i = squaredDistanceU8 S c i := by
  rw [DistanceMeasure.slotDistance, fullSum, partialSum_full,
    IndexPDXIVF.vertical_add_horizontal]
  rfl

/-- Nothing is dropped while the sentinel is on top: no distance reaches `2 ^ 32 - 1`. -/
theorem sentinel_u8 :
    DropRule (DistanceMeasure.u8 S maxValue params hS hdims) AnyAnswer (fun _ t => t ≠ ⊤) where
  anti ht h := ne_top_of_le_ne_top h ht
  drop {c i idx w t} _ hw hidx _ hle := by
    rintro rfl
    rw [getPruningThreshold_u8 hS] at hle
    have hterm : ∀ d, 0 ≤ (DistanceMeasure.u8 S maxValue params hS hdims).term c i d :=
      fun d => Nat.zero_le _
    have hsum := partialAt_le_fullSum hterm hw (S.pdxData.vertical_add_horizontal.symm ▸ hidx)
    have hfull := Quantization.partialSum_termU8_lt S.preparedQuery (S.pdxData.cluster c).data
      (S.pdxData.cluster c).numEmbeddings i (S.pdxData.vertical_add_horizontal.symm ▸ hdims)
      le_rfl le_rfl
    exact absurd (hle.trans hsum) 
      (not_le.mpr (hfull.trans (show (2 ^ 32 - 1) / 2 < 2 ^ 32 - 1 by decide)))

/-- The distance on top of the heap is a number `t`, and the integer threshold that it gives is not
truncated to zero, unless `t` is zero itself. -/
def NotTruncated (S : Searcher K UInt8 Nat) (params : ScalarQuantizationParams K)
    (top : ExactFloat K) (currentDimensionIdx : Nat) : Prop :=
  ∃ t, top = ofReal t ∧ (t ≤ 0 ∨ 1 ≤ t * S.pruner.ratioAt currentDimensionIdx *
    (params.quantizationScale * params.quantizationScale))

theorem truncateThreshold_pos [IsStrictOrderedRing K] {x : K} (h : 1 ≤ x) :
    0 < Quantization.truncateThreshold (ofReal x) := by
  rw [Quantization.truncateThreshold_ofReal]
  split_ifs
  · decide
  · have hfloor : (1 : Int) ≤ ⌊x⌋ := Int.le_floor.mpr (by simpa using h)
    omega

/-- A candidate at distance zero: a threshold that is not truncated to zero is reached only if the
top is at distance zero. -/
theorem exact_u8 [IsStrictOrderedRing K] {x₀ : KNNCandidate K}
    {Ok : ThresholdRead → ExactFloat K → Prop}
    (hmatch : ∀ c, ∀ i < (S.pdxData.cluster c).numEmbeddings,
      (DistanceMeasure.u8 S maxValue params hS hdims).candidate c i = x₀ →
        squaredDistanceU8 S c i = 0 ∧ ∀ idx t, Ok ⟨c, idx⟩ t → NotTruncated S params t idx) :
    DropRule (DistanceMeasure.u8 S maxValue params hS hdims) Ok
      (fun x t => x = x₀ → t ≤ ofReal 0) where
  anti ht h hx := ht.trans (h hx)
  drop {c i idx w t} hi hw hidx hok hle hx := by
    obtain ⟨hzero, hread⟩ := hmatch c i hi hx
    obtain ⟨t, rfl, hnonpos | hlarge⟩ := hread idx t hok
    · exact ofReal_le.mpr hnonpos
    · have hfull : fullSum ((DistanceMeasure.u8 S maxValue params hS hdims).term c)
          S.pdxData.numVerticalDimensions S.pdxData.numHorizontalDimensions i = 0 :=
        (slotDistance_u8 hS hdims c i).trans hzero
      have hterm : ∀ d, 0 ≤ (DistanceMeasure.u8 S maxValue params hS hdims).term c i d :=
        fun d => Nat.zero_le _
      have hvisited := partialAt_le_fullSum hterm hw (S.pdxData.vertical_add_horizontal.symm ▸ hidx)
      rw [getPruningThreshold_u8 hS, scale_ofReal, scale_ofReal] at hle
      have hthreshold := hle.trans hvisited
      rw [hfull] at hthreshold
      exact absurd (truncateThreshold_pos hlarge) (not_lt.mpr hthreshold)

end U8

end PDXearch
