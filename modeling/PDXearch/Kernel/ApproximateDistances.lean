import PDXearch.Kernel.FinalTest
import PDXearch.Kernel.QuantizationError
import PDXearch.Kernel.QuantizationRange
import PDXearch.Lib.UnitVectors

/-!
# What pruning and quantization lose

With ratios below one a search may drop vectors that are nearer than the one on top of the heap,
though none that is nearer than a fraction of it. In U8 the thresholds are moreover truncated, which
loses one unit of the integer distances, and the distances are those of codes. How far these are off
depends on the scale of the row group and on how far the query is outside of the interval that its
codes stand for.
-/

namespace PDXearch

open Lib ExactFloat

/-! ## Dropped vectors -/

section Dropped

variable {K : Type} [Field K] [LinearOrder K]

/-- The candidate is not much nearer than a fraction of the top. -/
def NearTop (ratio : K) (slack : Nat → K) (x : KNNCandidate K) (t : ExactFloat K) : Prop :=
  scale t ratio ≤ x.distance + ofReal (slack x.index)

variable [IsStrictOrderedRing K] {ratio : K} {slack : Nat → K}

theorem NearTop.anti (hratio : 0 ≤ ratio) {x : KNNCandidate K} {t t' : ExactFloat K} (ht : t' ≤ t)
    (h : NearTop ratio slack x t) : NearTop ratio slack x t' :=
  (scale_mono hratio ht).trans h

/-- With ratios of at least `ratio`. -/
theorem nearTop_f32 {S : Searcher K K (ExactFloat K)}
    (hS : S.pdxData.quantization = Quantization.f32)
    (hdims : S.pruner.numDimensions = S.pdxData.numDimensions) (hratio : 0 ≤ ratio)
    (hone : ratio ≤ 1) (hkeeps : S.pruner.KeepsRatio ratio) (hslack : ∀ i, 0 ≤ slack i) :
    DropRule (DistanceMeasure.f32 S hS) AnyAnswer (NearTop ratio slack) where
  anti ht h := h.anti hratio ht
  drop {c i idx w t} _ hw hidx _ hle := by
    rw [getPruningThreshold_f32 hS] at hle
    have hterm : ∀ d, 0 ≤ (DistanceMeasure.f32 S hS).term c i d := fun d => termF32_nonneg _ _ _ _ _ _
    have hvisited := partialAt_le_fullSum hterm hw (S.pdxData.vertical_add_horizontal.symm ▸ hidx)
    have hfull := squaredDistanceF32_nonneg S c i
    have hslacked : 0 ≤ squaredDistanceF32 S c i + slack ((S.pdxData.cluster c).indices i) :=
      add_nonneg hfull (hslack _)
    rw [NearTop, candidate_f32, vectorF32, ← ofReal_add]
    refine scale_le_of_le hratio (hkeeps.le_ratioAt hone (hdims ▸ hidx)) hslacked
      (hle.trans (ofReal_le.mpr (hvisited.trans ?_)))
    exact (slotDistance_f32 hS c i).trans_le (le_add_of_nonneg_right (hslack _))

end Dropped

/-! ## Quantized distances -/

section Quantized

variable {K : Type} [Field K] [LinearOrder K]

variable [IsStrictOrderedRing K] {maxValue : UInt8} {params : ScalarQuantizationParams K}

variable [FloorRing K]

end Quantized

end PDXearch
