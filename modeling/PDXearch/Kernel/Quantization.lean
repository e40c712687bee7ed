import PDXearch.Kernel.Layout
import Mathlib.Algebra.Order.Floor.Ring
import Mathlib.Data.UInt

/-!
# Quantizations

The kernel is a template over the quantization. `Quantization` collects what the parameter
selects: the distance type with its arithmetic, the distance computers, the two conversions
between distances and the floats of the heap, the encoding of floats and the layout.

`Measures` is what the kernel's loops rely on: partial sums of one term per dimension and vector,
embedded into the distance type. Both quantizations satisfy it, U8 because 16384 squared byte
differences fit into 32 bits.
-/

namespace PDXearch

open Lib ExactFloat

/-- What the template parameter `Q` selects: embeddings of `E`, distances in `D`. The conversions
of U8 use the index's quantization parameters. -/
structure Quantization (K E D : Type) where
  zero : D
  add : D → D → D
  /-- `std::numeric_limits<distance_t>::max()` -/
  max : D
  /-- `max() / 2` -/
  halfMax : D
  vertical : Bool → (Nat → E) → (Nat → E) → Nat → Nat → Nat → Nat → (Nat → D) → (Nat → Nat) →
    Nat → D
  horizontal : (Nat → E) → (Nat → E) → Nat → D
  /-- From the float threshold to the one that distances are compared with. -/
  thresholdOfFloat : ExactFloat K → D
  /-- From a distance to the float that enters the heap. -/
  floatOfDistance : D → ExactFloat K
  /-- What is stored and compared in place of a float. -/
  encode : K → E
  /-- `StoreClusterEmbeddings`, given the split, the number of embeddings and the input matrix. -/
  storeClusterEmbeddings : Nat → Nat → Nat → (Nat → Nat → E) → List (Nat × E)

/-- From the preprocessed query to the one that the distance computers read. -/
def Quantization.prepareQuery {K E D : Type} (Q : Quantization K E D) (query : Nat → K) : Nat → E :=
  fun i => Q.encode (query i)

/-! ## The scalar quantizer -/

section Quantizer

variable {K : Type} [Field K] [LinearOrder K]

/-- The sum of the squares in `NormalizeQuery`; `fl` rounds the result of an operation. -/
def sumOfSquares (fl : K → K) (numDimensions : Nat) (src : Nat → K) : K :=
  (List.range numDimensions).foldl (fun sum i => fl (sum + fl (src i * src i))) 0

/-- `NormalizeQuery`; if the sum of the squares is zero nothing is written to `out`. -/
def normalizeQuery (fl sqrt : K → K) (numDimensions : Nat) (src out : Nat → K) : Nat → K :=
  let sum := sumOfSquares fl numDimensions src
  if sum = 0 then out else fun i => if i < numDimensions then fl (src i / sqrt sum) else out i

/-- `ScalarQuantizationParams` -/
structure ScalarQuantizationParams (K : Type) where
  quantizationBase : K
  quantizationScale : K

/-- `ComputeQuantizationParams` of at least one element: the folds start from the first element
in place of the extreme floats. -/
def computeQuantizationParams (maxValue : UInt8) (embeddings : Nat → K) (totalElements : Nat) :
    ScalarQuantizationParams K :=
  let globalMin := (List.range totalElements).foldl (fun m i => min m (embeddings i)) (embeddings 0)
  let globalMax := (List.range totalElements).foldl (fun m i => max m (embeddings i)) (embeddings 0)
  let range := globalMax - globalMin
  ⟨globalMin, if 0 < range then (maxValue.toNat : K) / range else 1⟩

variable [FloorRing K]

/-- `std::round`: halves are rounded away from zero. -/
def round (x : K) : Int :=
  if 0 ≤ x then ⌊x + (1 / 2 : Rat)⌋ else ⌈x - (1 / 2 : Rat)⌉

/-- Conversion of a float that holds an integer to `int32_t`; undefined where it does not fit. -/
def toInt32 (z : Int) : Option Int := if -2 ^ 31 ≤ z ∧ z < 2 ^ 31 then some z else none

/-- What x86 gives for a conversion that is undefined. -/
def integerIndefinite : Int := -2 ^ 31

/-- `QuantizeEmbedding`, one dimension, on x86. -/
def quantize (maxValue : UInt8) (params : ScalarQuantizationParams K) (x : K) : UInt8 :=
  let scaled := (x - params.quantizationBase) * params.quantizationScale
  let rounded := (toInt32 (round scaled)).getD integerIndefinite
  if (maxValue.toNat : Int) < rounded then maxValue
  else if rounded < 0 then 0
  else UInt8.ofNat rounded.toNat

end Quantizer

namespace Quantization

variable {K : Type} [Field K] [LinearOrder K]

def f32 : Quantization K K (ExactFloat K) where
  zero := ofReal 0
  add := (· + ·)
  max := ExactFloat.max
  halfMax := ExactFloat.halfMax
  vertical := verticalF32
  horizontal := horizontalF32
  thresholdOfFloat := id
  floatOfDistance := id
  encode := id
  storeClusterEmbeddings := storeClusterEmbeddingsF32

/-- The conversion of the scaled threshold: what does not fit becomes the greatest value, the rest
is truncated. -/
def truncateThreshold [FloorRing K] (scaled : ExactFloat K) : Nat :=
  match scaled with
  | some (some x) => if ((2 ^ 32 : Nat) : K) ≤ x then 2 ^ 32 - 1 else ⌊x⌋.toNat
  | _ => 2 ^ 32 - 1

theorem truncateThreshold_ofReal [FloorRing K] (x : K) :
    truncateThreshold (ofReal x) = if (2 : K) ^ 32 ≤ x then 2 ^ 32 - 1 else ⌊x⌋.toNat := by
  rw [← Nat.cast_ofNat (R := K), ← Nat.cast_pow]
  rfl

/-- The 8-bit quantization of an index with the parameters `params`. -/
def u8 [FloorRing K] (maxValue : UInt8) (params : ScalarQuantizationParams K) :
    Quantization K UInt8 Nat where
  zero := 0
  add a b := (a + b) % 2 ^ 32
  max := 2 ^ 32 - 1
  halfMax := (2 ^ 32 - 1) / 2
  vertical := verticalU8
  horizontal := horizontalU8
  thresholdOfFloat t :=
    truncateThreshold (scale t (params.quantizationScale * params.quantizationScale))
  floatOfDistance d :=
    ofReal ((d : K) * (1 / (params.quantizationScale * params.quantizationScale)))
  encode := quantize maxValue params
  storeClusterEmbeddings := storeClusterEmbeddingsU8

end Quantization

/-! ## What the kernel's loops rely on -/

section Measures

variable {K E D M : Type} [AddCommMonoid M]

/-- The terms of vector `i` in the first `a` vertical and the first `b` horizontal dimensions. -/
def partialSum (term : Nat → Nat → M) (v i a b : Nat) : M :=
  ∑ d ∈ Finset.range a, term i d + ∑ d ∈ Finset.range b, term i (v + d)

theorem partialSum_full (term : Nat → Nat → M) (v h i : Nat) :
    partialSum term v i v h = ∑ d ∈ Finset.range (v + h), term i d := by
  rw [partialSum, Finset.sum_range_add]

theorem partialSum_vertical (term : Nat → Nat → M) {v i a b : Nat} (hab : a ≤ b) (c : Nat) :
    partialSum term v i a c + ∑ d ∈ Finset.Ico a b, term i d = partialSum term v i b c := by
  rw [partialSum, add_right_comm, Finset.sum_range_add_sum_Ico _ hab, partialSum]

theorem partialSum_horizontal (term : Nat → Nat → M) (v i a b w : Nat) :
    partialSum term v i a b + ∑ d ∈ Finset.range w, term i (v + b + d) =
      partialSum term v i a (b + w) := by
  rw [partialSum, add_assoc, partialSum, Finset.sum_range_add _ b w]
  simp only [add_assoc]

/-- On a cluster of `n` vectors with `v` vertical and `h` horizontal dimensions, the distances
are the partial sums of `term`, embedded by `embed`. -/
structure Measures (Q : Quantization K E D) (query data : Nat → E) (v h n : Nat)
    (term : Nat → Nat → M) (embed : M → D) : Prop where
  zero : Q.zero = embed 0
  vertical : ∀ {skip : Bool} {m a b c : Nat} {distances : Nat → D} {positions : Nat → Nat},
    Aligned v a b → c ≤ h → (visited skip positions m).Nodup → ∀ i ∈ visited skip positions m,
    distances i = embed (partialSum term v i a c) →
    Q.vertical skip query data m n a b distances positions i = embed (partialSum term v i b c)
  vertical_frame : ∀ {skip : Bool} {m a b : Nat} {distances : Nat → D} {positions : Nat → Nat},
    Aligned v a b → (visited skip positions m).Nodup → ∀ i ∉ visited skip positions m,
    Q.vertical skip query data m n a b distances positions i = distances i
  horizontal : ∀ {i a b : Nat}, a ≤ v → hDimSize ∣ b → b + hDimSize ≤ h →
    Q.add (embed (partialSum term v i a b)) (Q.horizontal (fun d => query (v + b + d))
      (fun d => data (v * n + b * n + i * hDimSize + d)) hDimSize) =
      embed (partialSum term v i a (b + hDimSize))

end Measures

/-- The cell of a horizontal dimension in the layout. -/
theorem horizontal_cell {v n b i d : Nat} (hb : hDimSize ∣ b) (hd : d < hDimSize) :
    v * n + (v + b + d - v) / hDimSize * hDimSize * n + i * hDimSize + (v + b + d - v) % hDimSize =
      v * n + b * n + i * hDimSize + d := by
  simp only [hDimSize] at hb hd ⊢
  have hsub : v + b + d - v = b + d := by omega
  have hdiv : (b + d) / 64 * 64 = b := by omega
  have hmod : (b + d) % 64 = d := by omega
  rw [hsub, hdiv, hmod]

namespace Quantization

theorem f32_measures {K : Type} [Field K] [LinearOrder K] (query data : Nat → K) (v h n : Nat) :
    Measures f32 query data v h n (termF32 query v n data) ofReal where
  zero := rfl
  vertical hab _ hnd i hi hdist := by
    refine (verticalF32_apply _ hab.2.2.1 hnd i).trans ?_
    rw [if_pos hi, hdist, ← ofReal_add, partialSum_vertical _ hab.2.1]
  vertical_frame hab hnd i hi := by
    refine (verticalF32_apply _ hab.2.2.1 hnd i).trans ?_
    rw [if_neg hi]
  horizontal {i a b} _ hb _ := by
    refine (congrArg (_ + ·) (horizontalF32_eq _ _ _)).trans ?_
    rw [← ofReal_add, ← partialSum_horizontal]
    congr 2
    refine Finset.sum_congr rfl fun d hd => ?_
    rw [termF32, readF32, if_neg (by omega), horizontal_cell hb (Finset.mem_range.mp hd)]

/-- No partial sum of an embedding's squared byte differences reaches the mark of the vectors that are
not selected, half the greatest 32-bit number. -/
theorem partialSum_termU8_lt (query data : Nat → UInt8) (n i : Nat) {v h : Nat}
    (hdims : v + h ≤ pdxMaxDims) {a b : Nat} (ha : a ≤ v) (hb : b ≤ h) :
    partialSum (termU8 query v n data) v i a b < (2 ^ 32 - 1) / 2 := by
  have hbound : ∀ (s : Finset Nat) (f : Nat → Nat),
      ∑ d ∈ s, termU8 query v n data i (f d) ≤ s.card * (255 * 255) := fun s f =>
    Finset.sum_le_card_nsmul s _ _ fun d _ => sqDiff_le _ _
  have hva := hbound (Finset.range a) id
  have hhb := hbound (Finset.range b) (v + ·)
  simp only [Finset.card_range, id] at hva hhb
  rw [pdxMaxDims] at hdims
  rw [partialSum]
  omega

theorem u8_measures {K : Type} [Field K] [LinearOrder K] [FloorRing K] (maxValue : UInt8)
    (params : ScalarQuantizationParams K) (query data : Nat → UInt8) {v h : Nat} (n : Nat)
    (hdims : v + h ≤ pdxMaxDims) :
    Measures (u8 maxValue params) query data v h n (termU8 query v n data) id where
  zero := rfl
  vertical hab hc hnd i hi hdist := by
    have hle := hab.2.1.trans hab.2.2.1
    refine (verticalU8_apply hab hnd i fun _ => ?_).trans ?_
    · rw [hdist]
      exact (partialSum_termU8_lt _ _ _ _ hdims hle hc).trans (by decide)
    · rw [if_pos hi, hdist, id, partialSum_vertical _ hab.2.1, id]
      exact Nat.mod_eq_of_lt ((partialSum_termU8_lt _ _ _ _ hdims hab.2.2.1 hc).trans (by decide))
  vertical_frame hab hnd i hi := by
    refine (verticalU8_apply hab hnd i fun hmem => absurd hmem hi).trans ?_
    rw [if_neg hi]
  horizontal {i a b} ha hb hbh := by
    have hlt := partialSum_termU8_lt query data n i hdims ha hbh
    have hsum : ∑ d ∈ Finset.range hDimSize, sqDiff (query (v + b + d))
        (data (v * n + b * n + i * hDimSize + d)) =
        ∑ d ∈ Finset.range hDimSize, termU8 query v n data i (v + b + d) := by
      refine Finset.sum_congr rfl fun d hd => ?_
      rw [termU8, readU8, if_neg (by omega), horizontal_cell hb (Finset.mem_range.mp hd)]
    rw [← partialSum_horizontal] at hlt ⊢
    change (_ + horizontalU8 _ _ _) % 2 ^ 32 = _
    rw [horizontalU8_eq, hsum, id, Nat.add_mod_mod]
    exact Nat.mod_eq_of_lt (hlt.trans (by decide))

end Quantization

end PDXearch
