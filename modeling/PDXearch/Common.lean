import PDXearch.Lib.ExactFloat
import PDXearch.Lib.PriorityQueue

/-!
# Constants, the dimension split and candidates

The parts of `common.hpp` that the kernel uses. An embedding's dimensions are split into a
vertical part, stored dimension by dimension, and a horizontal part, stored in blocks of
`H_DIM_SIZE` dimensions of one embedding.
-/

namespace PDXearch

open Lib

/-- `PDX_MAX_DIMS` -/
def pdxMaxDims : Nat := 16384

/-- `FLT_MANT_DIG` -/
def fltMantDig : Nat := 24

/-- `H_DIM_SIZE` -/
@[reducible] def hDimSize : Nat := 64

/-- `U8_INTERLEAVE_SIZE` -/
@[reducible] def u8InterleaveSize : Nat := 4

/-- `DIMENSIONS_FETCHING_SIZES` -/
def dimensionsFetchingSizes : List Nat :=
  [16, 16, 32, 32, 32, 32, 64, 64, 64, 64,
    128, 128, 128, 128, 256, 256, 512, 1024, 2048, 16384]

/-- The static assertion on the table: steps never split an interleaved group. -/
theorem allFetchingSizesMultipleOfU8InterleaveSize :
    ∀ s ∈ dimensionsFetchingSizes, u8InterleaveSize ∣ s := by decide

/-- One pass through the table fetches more dimensions than an embedding can have. -/
theorem pdxMaxDims_le_sum : pdxMaxDims ≤ dimensionsFetchingSizes.sum := by decide

/-- `PDXDimensionSplit` -/
structure PDXDimensionSplit where
  horizontalDimensions : Nat
  verticalDimensions : Nat
  deriving DecidableEq

/-- The products with `PROPORTION_HORIZONTAL_DIM` and 0.25 are exact in this range. -/
def getPDXDimensionSplit (numDimensions : Nat) : PDXDimensionSplit :=
  let horizontalD := if numDimensions ≤ 128 then numDimensions / 4 else numDimensions * 3 / 4
  let horizontalD :=
    if 0 < horizontalD % hDimSize then (horizontalD + hDimSize / 2) / hDimSize * hDimSize
    else horizontalD
  let verticalD := numDimensions - horizontalD
  let horizontalD := if verticalD = 0 then hDimSize else horizontalD
  let verticalD := numDimensions - horizontalD
  if numDimensions ≤ hDimSize then ⟨0, numDimensions⟩ else ⟨horizontalD, verticalD⟩

example : getPDXDimensionSplit 1028 = ⟨768, 260⟩ := by decide

theorem split_add (numDimensions : Nat) :
    (getPDXDimensionSplit numDimensions).verticalDimensions +
      (getPDXDimensionSplit numDimensions).horizontalDimensions = numDimensions := by
  simp only [getPDXDimensionSplit, hDimSize]
  split_ifs <;> simp only <;> omega

theorem verticalDimensions_pos {numDimensions : Nat} (h : 0 < numDimensions) :
    0 < (getPDXDimensionSplit numDimensions).verticalDimensions := by
  simp only [getPDXDimensionSplit, hDimSize]
  split_ifs <;> simp only <;> omega

theorem hDimSize_dvd_horizontalDimensions (numDimensions : Nat) :
    hDimSize ∣ (getPDXDimensionSplit numDimensions).horizontalDimensions := by
  simp only [getPDXDimensionSplit, hDimSize]
  split_ifs <;> simp only <;> omega

/-- `KNNCandidate` -/
@[ext] structure KNNCandidate (K : Type) where
  index : Nat
  distance : ExactFloat K
  deriving DecidableEq

/-- `Heap`: a `std::priority_queue` of candidates by `VectorComparator`, the farthest on top. -/
abbrev Heap (H K : Type) [LinearOrder K] : Type :=
  PriorityQueue H (KNNCandidate.distance (K := K))

end PDXearch
