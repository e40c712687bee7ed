import PDXearch.Create.Sink
import PDXearch.Kernel.GlobalMemory
import PDXearch.Lib.UnitVectors

/-!
# The distance metrics

An index searches by squared distances of preprocessed embeddings, whatever its metric. The distance
functions that it answers for are computed on the embeddings of the table. The preprocessing is
such that the two put rows in the same order: the rotation keeps distances, and for the cosine
distance the embeddings are divided by their lengths before.
-/

namespace PDXearch

open Lib Matrix

/-- `DistanceMetric`; there is no name by which an index could be created with `ip`. -/
inductive DistanceMetric
  | l2sq
  | cosine
  | ip
  deriving DecidableEq

def distanceMetricRequiresNormalization (distanceMetric : DistanceMetric) : Bool :=
  distanceMetric = .cosine || distanceMetric = .ip

/-- The names in `MakeFunctionMatcher`; the other metric is a `NotImplementedException`. -/
def DistanceMetric.distanceFunctions : DistanceMetric → Option (List String)
  | .l2sq => some ["array_distance", "<->"]
  | .cosine => some ["array_cosine_distance", "<=>"]
  | .ip => none

section Operations

variable {K : Type} [Field K] [LinearOrder K]

/-- The type of a distance kernel, with the square root that it calls. -/
abbrev DistanceOp (K : Type) : Type := (K → K) → (Nat → K) → (Nat → K) → Nat → K

/-- `BlobDistanceOp::Operation` -/
def blobDistanceOp : DistanceOp K := fun sqrt lhs rhs count =>
  sqrt ((List.range count).foldl (fun dist i =>
    let diff := lhs i - rhs i
    dist + diff * diff) 0)

/-- A quotient of floats, clamped to -1 and 1. What is divided by zero is infinite or, if it is zero
itself, not a number; in place of this `std::max` gives -1. -/
def clampedQuotient (dividend divisor : K) : K :=
  if divisor = 0 then if 0 < dividend then 1 else -1
  else max (-1) (min (dividend / divisor) 1)

/-- `BlobCosineDistanceOp::Operation` -/
def blobCosineDistanceOp : DistanceOp K := fun sqrt lhs rhs count =>
  let (dot, normL, normR) := (List.range count).foldl (fun (dot, normL, normR) i =>
    (dot + lhs i * rhs i, normL + lhs i * lhs i, normR + rhs i * rhs i)) (0, 0, 0)
  let similarity := clampedQuotient dot (sqrt (normL * normR))
  1 - similarity

/-- The kernels that `PDXearchBlobFunctions::Register` registers the distance functions with. -/
def distanceOverload (name : String) : Option (DistanceOp K) :=
  if name = "array_distance" ∨ name = "<->" then some blobDistanceOp
  else if name = "array_cosine_distance" ∨ name = "<=>" then some blobCosineDistanceOp
  else none

/-! ## The kernels as functions of vectors -/

/-- The first `n` elements of an array. -/
def arrayVector (n : Nat) (x : Nat → K) : Fin n → K := fun i => x i

omit [LinearOrder K] in
theorem arrayVector_dotProduct (n : Nat) (x y : Nat → K) :
    arrayVector n x ⬝ᵥ arrayVector n y = ∑ i ∈ Finset.range n, x i * y i :=
  (Finset.sum_range fun i => x i * y i).symm

omit [LinearOrder K] in
theorem sqDist_arrayVector (n : Nat) (x y : Nat → K) :
    sqDist (arrayVector n x) (arrayVector n y) = ∑ i ∈ Finset.range n, (x i - y i) ^ 2 := by
  simp only [sq]
  exact arrayVector_dotProduct n (fun i => x i - y i) fun i => x i - y i

omit [LinearOrder K] in
theorem arrayVector_ne_zero {n : Nat} {x : Nat → K} :
    arrayVector n x ≠ 0 ↔ ∃ i < n, x i ≠ 0 := by
  rw [Function.ne_iff]
  constructor
  · rintro ⟨i, hi⟩
    exact ⟨i, i.isLt, hi⟩
  · rintro ⟨i, hlt, hi⟩
    exact ⟨⟨i, hlt⟩, hi⟩

omit [LinearOrder K] in
theorem blobDistanceOp_eq (sqrt : K → K) (lhs rhs : Nat → K) (count : Nat) :
    blobDistanceOp sqrt lhs rhs count =
      sqrt (sqDist (arrayVector count lhs) (arrayVector count rhs)) := by
  rw [blobDistanceOp, sqDist]
  exact congrArg sqrt ((sumOfSquares_id count fun i => lhs i - rhs i).trans
    (arrayVector_dotProduct count _ _).symm)

theorem blobCosineDistanceOp_eq (sqrt : K → K) (lhs rhs : Nat → K) (count : Nat) :
    blobCosineDistanceOp sqrt lhs rhs count =
      1 - clampedQuotient (arrayVector count lhs ⬝ᵥ arrayVector count rhs)
        (sqrt (arrayVector count lhs ⬝ᵥ arrayVector count lhs *
          (arrayVector count rhs ⬝ᵥ arrayVector count rhs))) := by
  have hloop : (List.range count).foldl (fun (s : K × K × K) i =>
      (s.1 + lhs i * rhs i, s.2.1 + lhs i * lhs i, s.2.2 + rhs i * rhs i)) (0, 0, 0) =
        (∑ i ∈ Finset.range count, lhs i * rhs i, ∑ i ∈ Finset.range count, lhs i * lhs i,
          ∑ i ∈ Finset.range count, rhs i * rhs i) := by
    refine foldl_range_induction (P := fun t s => s = (∑ i ∈ Finset.range t, lhs i * rhs i,
      ∑ i ∈ Finset.range t, lhs i * lhs i, ∑ i ∈ Finset.range t, rhs i * rhs i)) rfl ?_
    rintro t s - rfl
    simp only [Finset.sum_range_succ]
  rw [arrayVector_dotProduct, arrayVector_dotProduct, arrayVector_dotProduct]
  exact congrArg (fun s : K × K × K => 1 - clampedQuotient s.1 (sqrt (s.2.1 * s.2.2))) hloop

/-- A zero vector is as far away as a vector can be. -/
example : blobCosineDistanceOp (K := Rat) id (fun _ => 0) (fun _ => 1) 2 = 2 := by decide +kernel

end Operations

/-! ## Preprocessing keeps the order of the distances -/

section Preprocessing

variable {K : Type} [Field K]

/-- The matrix that `Rotate` multiplies by. -/
def ADSamplingPruner.rotationMatrix (pruner : ADSamplingPruner K) :
    Matrix (Fin pruner.numDimensions) (Fin pruner.numDimensions) K :=
  fun row col => pruner.matrix (row * pruner.numDimensions + col)

/-- What `GenerateRandomRotationMatrix` gets from the Householder decomposition: orthonormal
columns. -/
def ADSamplingPruner.Orthogonal (pruner : ADSamplingPruner K) : Prop :=
  pruner.rotationMatrixᵀ * pruner.rotationMatrix = 1

theorem ADSamplingPruner.orthogonal_of_columns {pruner : ADSamplingPruner K}
    (h : ∀ i < pruner.numDimensions, ∀ j < pruner.numDimensions,
      ∑ row ∈ Finset.range pruner.numDimensions, pruner.matrix (row * pruner.numDimensions + i) *
        pruner.matrix (row * pruner.numDimensions + j) = if i = j then 1 else 0) :
    pruner.Orthogonal := by
  refine Matrix.ext fun i j => ?_
  rw [Matrix.mul_apply, Matrix.one_apply]
  refine (Finset.sum_range fun row => pruner.matrix (row * pruner.numDimensions + i) *
    pruner.matrix (row * pruner.numDimensions + j)).symm.trans ?_
  rw [h i i.isLt j j.isLt]
  simp only [Fin.ext_iff]

theorem arrayVector_rotate (pruner : ADSamplingPruner K) (embedding : Nat → K) :
    arrayVector pruner.numDimensions (pruner.rotate embedding) =
      pruner.rotationMatrix *ᵥ arrayVector pruner.numDimensions embedding :=
  funext fun row => Finset.sum_range fun col =>
    pruner.matrix (row * pruner.numDimensions + col) * embedding col

variable [LinearOrder K]

/-- The embeddings that the metric is about; those that are normalised must not be zero. -/
def DistanceMetric.Defined (metric : DistanceMetric) (n : Nat) (embedding : Nat → K) : Prop :=
  distanceMetricRequiresNormalization metric → ∃ d < n, embedding d ≠ 0

variable [IsStrictOrderedRing K]

theorem arrayVector_normalizeQuery {n : Nat} (sqrt : K → K) {embedding : Nat → K}
    (hne : ∃ d < n, embedding d ≠ 0) (out : Nat → K) :
    arrayVector n (normalizeQuery id sqrt n embedding out) =
      unitVector sqrt (arrayVector n embedding) := by
  funext i
  rw [arrayVector, normalizeQuery_apply, if_pos ⟨hne, i.isLt⟩, unitVector, arrayVector_dotProduct]
  rfl

/-- The squared distance of preprocessed embeddings, in terms of the distance function. -/
def DistanceMetric.squaredDistance (metric : DistanceMetric) (distance : K) : K :=
  if metric = .l2sq then distance * distance else distance + distance

variable {preprocessor : EmbeddingPreprocessor K} {metric : DistanceMetric}
  {names : List String} {name : String} {op : DistanceOp K}

omit [IsStrictOrderedRing K] in
/-- The functions that an index of a metric answers for are registered with one kernel. -/
theorem distanceOverload_of_mem (hnames : names ∈ metric.distanceFunctions) (hname : name ∈ names) :
    metric = .l2sq ∧ distanceOverload (K := K) name = some blobDistanceOp ∨
      metric = .cosine ∧ distanceOverload (K := K) name = some blobCosineDistanceOp := by
  cases metric with
  | l2sq =>
    obtain rfl := Option.some.inj hnames
    refine Or.inl ⟨rfl, if_pos ?_⟩
    simpa using hname
  | cosine =>
    obtain rfl := Option.some.inj hnames
    refine Or.inr ⟨rfl, ?_⟩
    rcases List.mem_pair.mp hname with rfl | rfl
    · rfl
    · rfl
  | ip => cases hnames

/-- The kernel of one of the functions that an index of the metric answers for. -/
def DistanceMetric.IsKernel (metric : DistanceMetric) (op : DistanceOp K) : Prop :=
  ∃ names ∈ metric.distanceFunctions, ∃ name ∈ names, distanceOverload name = some op

omit [IsStrictOrderedRing K] in
theorem isKernel_blobDistanceOp : DistanceMetric.l2sq.IsKernel (blobDistanceOp (K := K)) :=
  ⟨_, rfl, "<->", by decide, rfl⟩

omit [IsStrictOrderedRing K] in
theorem isKernel_blobCosineDistanceOp :
    DistanceMetric.cosine.IsKernel (blobCosineDistanceOp (K := K)) :=
  ⟨_, rfl, "<=>", by decide, rfl⟩

omit [IsStrictOrderedRing K] in
theorem DistanceMetric.IsKernel.cases (h : metric.IsKernel op) :
    metric = .l2sq ∧ op = blobDistanceOp ∨ metric = .cosine ∧ op = blobCosineDistanceOp := by
  obtain ⟨names, hnames, name, hname, hop⟩ := h
  rcases distanceOverload_of_mem (K := K) hnames hname with ⟨rfl, hkernel⟩ | ⟨rfl, hkernel⟩
  · exact Or.inl ⟨rfl, Option.some.inj (hop.symm.trans hkernel)⟩
  · exact Or.inr ⟨rfl, Option.some.inj (hop.symm.trans hkernel)⟩

/-- `PreprocessEmbedding` as the index of a metric calls it, on vectors. -/
theorem arrayVector_preprocessEmbedding (preprocessor : EmbeddingPreprocessor K)
    {embedding : Nat → K}
    (hdefined : metric.Defined preprocessor.pruner.numDimensions embedding) :
    arrayVector preprocessor.pruner.numDimensions (preprocessor.preprocessEmbedding
      (distanceMetricRequiresNormalization metric) embedding) =
        preprocessor.pruner.rotationMatrix *ᵥ
          (if distanceMetricRequiresNormalization metric then
            unitVector preprocessor.sqrt (arrayVector preprocessor.pruner.numDimensions embedding)
          else arrayVector preprocessor.pruner.numDimensions embedding) := by
  rw [EmbeddingPreprocessor.preprocessEmbedding, arrayVector_rotate]
  congr 1
  split_ifs with hnormalize
  · exact arrayVector_normalizeQuery _ (hdefined hnormalize) _
  · rfl

theorem blobCosineDistanceOp_of_ne_zero {sqrt : K → K} (hsqrt : IsSqrt sqrt) {n : Nat}
    {x y : Nat → K} (hx : arrayVector n x ≠ 0) (hy : arrayVector n y ≠ 0) :
    blobCosineDistanceOp sqrt x y n = 1 - cosine sqrt (arrayVector n x) (arrayVector n y) := by
  have hroot := hsqrt.pos (mul_pos (dotProduct_self_pos hx) (dotProduct_self_pos hy))
  obtain ⟨hlo, hhi⟩ := cosine_mem_Icc hsqrt hx hy
  rw [blobCosineDistanceOp_eq, clampedQuotient, if_neg hroot.ne']
  change 1 - max (-1) (min (cosine sqrt (arrayVector n x) (arrayVector n y)) 1) = _
  rw [min_eq_left hhi, max_eq_right hlo]

/-- The squared distance that the index computes for an embedding. -/
theorem sqDist_preprocessEmbedding (hsqrt : IsSqrt preprocessor.sqrt)
    (horthogonal : preprocessor.pruner.Orthogonal) (hop : metric.IsKernel op) {x y : Nat → K}
    (hx : metric.Defined preprocessor.pruner.numDimensions x)
    (hy : metric.Defined preprocessor.pruner.numDimensions y) :
    sqDist
        (arrayVector preprocessor.pruner.numDimensions (preprocessor.preprocessEmbedding
          (distanceMetricRequiresNormalization metric) x))
        (arrayVector preprocessor.pruner.numDimensions (preprocessor.preprocessEmbedding
          (distanceMetricRequiresNormalization metric) y)) =
      metric.squaredDistance (op preprocessor.sqrt x y preprocessor.pruner.numDimensions) := by
  rw [arrayVector_preprocessEmbedding _ hx, arrayVector_preprocessEmbedding _ hy,
    sqDist_mulVec horthogonal]
  rcases hop.cases with ⟨rfl, rfl⟩ | ⟨rfl, rfl⟩
  · rw [blobDistanceOp_eq]
    exact (hsqrt.mul_self _ (dotProduct_self_nonneg _)).symm
  · have hx' := arrayVector_ne_zero.mpr (hx rfl)
    have hy' := arrayVector_ne_zero.mpr (hy rfl)
    rw [blobCosineDistanceOp_of_ne_zero hsqrt hx' hy']
    exact sqDist_unitVector hsqrt hx' hy'

theorem clampedQuotient_le_one (dividend divisor : K) : clampedQuotient dividend divisor ≤ 1 := by
  have hlo : (-1 : K) ≤ 1 := by linarith [zero_le_one (α := K)]
  rw [clampedQuotient]
  split_ifs
  · exact le_rfl
  · exact hlo
  · exact max_le hlo (min_le_right _ _)

theorem DistanceMetric.IsKernel.nonneg (hop : metric.IsKernel op) {sqrt : K → K}
    (hsqrt : IsSqrt sqrt) (x y : Nat → K) (n : Nat) : 0 ≤ op sqrt x y n := by
  rcases hop.cases with ⟨-, rfl⟩ | ⟨-, rfl⟩
  · rw [blobDistanceOp_eq]
    exact hsqrt.nonneg _ (dotProduct_self_nonneg _)
  · rw [blobCosineDistanceOp_eq]
    exact sub_nonneg.mpr (clampedQuotient_le_one _ _)

theorem DistanceMetric.squaredDistance_le_iff {a b : K} (ha : 0 ≤ a) (hb : 0 ≤ b) :
    metric.squaredDistance a ≤ metric.squaredDistance b ↔ a ≤ b := by
  unfold DistanceMetric.squaredDistance
  split_ifs
  · exact (mul_self_le_mul_self_iff ha hb).symm
  · constructor
    · intro h
      by_contra hlt
      exact h.not_gt (add_lt_add (not_le.mp hlt) (not_le.mp hlt))
    · exact fun h => add_le_add h h

/-- The distance by which the index orders embeddings. -/
def EmbeddingPreprocessor.indexDistance (preprocessor : EmbeddingPreprocessor K)
    (metric : DistanceMetric) (x y : Nat → K) : K :=
  ∑ d ∈ Finset.range preprocessor.pruner.numDimensions,
    (preprocessor.preprocessEmbedding (distanceMetricRequiresNormalization metric) x d -
      preprocessor.preprocessEmbedding (distanceMetricRequiresNormalization metric) y d) ^ 2

theorem indexDistance_eq (hsqrt : IsSqrt preprocessor.sqrt)
    (horthogonal : preprocessor.pruner.Orthogonal) (hop : metric.IsKernel op) {x y : Nat → K}
    (hx : metric.Defined preprocessor.pruner.numDimensions x)
    (hy : metric.Defined preprocessor.pruner.numDimensions y) :
    preprocessor.indexDistance metric x y =
      metric.squaredDistance (op preprocessor.sqrt x y preprocessor.pruner.numDimensions) :=
  (sqDist_arrayVector _ _ _).symm.trans (sqDist_preprocessEmbedding hsqrt horthogonal hop hx hy)

/-- The index orders embeddings as the distance function does. -/
theorem indexDistance_le_iff (hsqrt : IsSqrt preprocessor.sqrt)
    (horthogonal : preprocessor.pruner.Orthogonal) (hop : metric.IsKernel op)
    {query x y : Nat → K} (hquery : metric.Defined preprocessor.pruner.numDimensions query)
    (hx : metric.Defined preprocessor.pruner.numDimensions x)
    (hy : metric.Defined preprocessor.pruner.numDimensions y) :
    preprocessor.indexDistance metric query x ≤ preprocessor.indexDistance metric query y ↔
      op preprocessor.sqrt query x preprocessor.pruner.numDimensions ≤
        op preprocessor.sqrt query y preprocessor.pruner.numDimensions := by
  rw [indexDistance_eq hsqrt horthogonal hop hquery hx,
    indexDistance_eq hsqrt horthogonal hop hquery hy]
  exact DistanceMetric.squaredDistance_le_iff (hop.nonneg hsqrt _ _ _) (hop.nonneg hsqrt _ _ _)

/-- What the search of an index says about a distance function: the squared distance of the
preprocessed embeddings is the square of the distance, or twice it for the cosine distance, and it
orders any two embeddings, ties included, as the distance function does. -/
structure KeepsMetric (preprocessor : EmbeddingPreprocessor K) (metric : DistanceMetric)
    (op : DistanceOp K) : Prop where
  indexDistance_eq : ∀ x y, metric.Defined preprocessor.pruner.numDimensions x →
    metric.Defined preprocessor.pruner.numDimensions y →
    preprocessor.indexDistance metric x y =
      metric.squaredDistance (op preprocessor.sqrt x y preprocessor.pruner.numDimensions)
  le_iff : ∀ query x y, metric.Defined preprocessor.pruner.numDimensions query →
    metric.Defined preprocessor.pruner.numDimensions x →
    metric.Defined preprocessor.pruner.numDimensions y →
    (preprocessor.indexDistance metric query x ≤ preprocessor.indexDistance metric query y ↔
      op preprocessor.sqrt query x preprocessor.pruner.numDimensions ≤
        op preprocessor.sqrt query y preprocessor.pruner.numDimensions)

theorem keepsMetric (hsqrt : IsSqrt preprocessor.sqrt)
    (horthogonal : preprocessor.pruner.Orthogonal) (hop : metric.IsKernel op) :
    KeepsMetric preprocessor metric op :=
  ⟨fun _ _ hx hy => PDXearch.indexDistance_eq hsqrt horthogonal hop hx hy,
    fun _ _ _ hquery hx hy => indexDistance_le_iff hsqrt horthogonal hop hquery hx hy⟩

/-- A quarter turn of the plane, and the cosine distance. -/
theorem keepsMetric_quarterTurn : KeepsMetric
    ⟨Real.sqrt, ⟨2, 0, fun i => if i = 1 then -1 else if i = 2 then 1 else 0, fun _ => 1⟩⟩ .cosine
    blobCosineDistanceOp := by
  refine keepsMetric isSqrt_sqrt (ADSamplingPruner.orthogonal_of_columns ?_)
    isKernel_blobCosineDistanceOp
  intro i (hi : i < 2) j (hj : j < 2)
  rw [Finset.sum_range_succ, Finset.sum_range_one]
  rcases Nat.le_one_iff_eq_zero_or_eq_one.mp (Nat.le_of_lt_succ hi) with rfl | rfl <;>
    rcases Nat.le_one_iff_eq_zero_or_eq_one.mp (Nat.le_of_lt_succ hj) with rfl | rfl <;> simp

/-! ## The rows of a table -/

/-- An index that searches the rows of a table by the preprocessed embeddings searches them by the
distance functions of its metric. -/
structure CreateIndex.Orders {E D : Type} (op : CreateIndex K E D) (metric : DistanceMetric)
    (table : Nat → Nat → K) (rowIds : List Nat) : Prop where
  isNormalized : op.isNormalized = distanceMetricRequiresNormalization metric
  sqrt : IsSqrt op.preprocessor.sqrt
  orthogonal : op.preprocessor.pruner.Orthogonal
  defined : ∀ r ∈ rowIds, metric.Defined op.preprocessor.pruner.numDimensions (table r)
  nodup : rowIds.Nodup

end Preprocessing

end PDXearch
