import PDXearch.Index.BlobDistance
import PDXearch.Lib.KSmallest

/-!
# Queries with encoded embeddings

A query embedding that was encoded is off by at most half a step of its scale in every component. So
its distances are, and the rows that are nearest to it are nearest to the original but for twice
that. The cosine distance depends on directions, which are off the less the longer the embedding
is.
-/

namespace PDXearch

open Lib

/-! ## Rounded components -/

section Components

/-- A scale is not finer than those that are tried before it. -/
theorem blobScale_mono {x y : Nat} (hxy : x ≤ y) (hy : y < 4) : blobScale id x ≤ blobScale id y := by
  interval_cases y <;> interval_cases x <;> norm_num [blobScale]

/-- A component that fits a scale is off by half a step of it at most. -/
theorem BlobProjection.near_of_fits {v w : Rat} {q : Int} {y : Nat} (h : BlobProjection v q y w)
    {x : Nat} (hx : x < 4) (hfits : FitsSelector id v x) : |w - v| ≤ blobScale id x / 2 := by
  obtain ⟨hy, hleast, -⟩ := h.selected
  have hyx : y ≤ x := not_lt.mp fun hlt => hleast x hlt hfits
  obtain ⟨hlo, hhi⟩ := (exists_fitsSelector_iff v).mp ⟨x, hx, hfits⟩
  have hscale := blobScale_mono hyx hx
  exact (h.near hlo hhi).trans (by linarith)

end Components

section Decoded

variable {K : Type} [Field K] [LinearOrder K] [IsStrictOrderedRing K]

/-- An array that holds the elements of a list. -/
def listEmbedding (input : List Rat) : Nat → K := fun d => ((input.getD d 0 : Rat) : K)

omit [LinearOrder K] [IsStrictOrderedRing K] in
theorem decodedEmbedding_eq (blob : List UInt8) {d : Nat} (hd : d < blobDimensionCount blob.length) :
    (decodedEmbedding id blob d : K) = listEmbedding (decodeBlobToFloatArray id blob) d := by
  rw [decodedEmbedding, decodeBlobInto, fill_apply, if_pos hd, listEmbedding]

/-- An encoded embedding has the dimension of the original, and is near to it. -/
theorem decodedEmbedding_near {input : List Rat} {x : Nat} (hx : x < 4)
    (hfits : ∀ v ∈ input, FitsSelector id v x) {blob : List UInt8}
    (hblob : encodeFloatArrayToBlob id input = some blob) :
    blobDimensionCount blob.length = input.length ∧
      ∀ d < input.length, |(decodedEmbedding id blob d : K) - listEmbedding input d| ≤
        ((blobScale id x / 2 : Rat) : K) := by
  have hinput : ∀ v ∈ input, |v| ≤ 21474 := by
    intro v hv
    obtain ⟨hlo, hhi⟩ := (exists_fitsSelector_iff v).mp ⟨x, hx, hfits v hv⟩
    exact abs_le.mpr ⟨by linarith, by linarith⟩
  obtain ⟨blob', hblob', -, hdims, hprojected, -⟩ := encodeFloatArrayToBlob_projects hinput
  obtain rfl : blob' = blob := Option.some.inj (hblob'.symm.trans hblob)
  refine ⟨hdims, fun d hd => ?_⟩
  have hlength := hprojected.length_eq
  rw [decodedEmbedding_eq blob' (hdims.symm ▸ hd), listEmbedding, listEmbedding, ← Rat.cast_sub,
    ← Rat.cast_abs, Rat.cast_le]
  obtain ⟨q, y, hprojection⟩ := hprojected.get hd (hlength ▸ hd)
  have hnear := hprojection.near_of_fits hx (hfits _ (List.get_mem _ _))
  simpa [List.getD_eq_getElem?_getD, hd, hlength ▸ hd] using hnear

end Decoded

/-! ## Distances of rounded queries -/

section Distances

variable {K : Type} [Field K] [LinearOrder K] {metric : DistanceMetric} {op : DistanceOp K}
  {sqrt : K → K}

/-- The length whose square the index computes for a distance: the distance itself, or, as the cosine
distance is half the square of one, the distance of two directions. -/
def DistanceMetric.rootDistance (metric : DistanceMetric) (sqrt : K → K) (distance : K) : K :=
  sqrt (metric.squaredDistance distance)

/-- How far this length can be off when the query is `error` off. -/
def DistanceMetric.rootError (metric : DistanceMetric) (length error : K) : K :=
  if metric = .l2sq then error else (error + error) / length

variable [IsStrictOrderedRing K]

theorem DistanceMetric.rootDistance_le_iff (hsqrt : IsSqrt sqrt) {a b : K} (ha : 0 ≤ a) (hb : 0 ≤ b) :
    metric.rootDistance sqrt a ≤ metric.rootDistance sqrt b ↔ a ≤ b := by
  have hnonneg : ∀ {c : K}, 0 ≤ c → 0 ≤ metric.squaredDistance c := by
    intro c hc
    rw [DistanceMetric.squaredDistance]
    split_ifs
    · exact mul_nonneg hc hc
    · exact add_nonneg hc hc
  exact (hsqrt.le_iff (hnonneg ha) (hnonneg hb)).trans (DistanceMetric.squaredDistance_le_iff ha hb)

/-- The triangle inequality, for the embeddings or for their directions. -/
theorem abs_rootDistance_sub_le (hsqrt : IsSqrt sqrt) (hop : metric.IsKernel op) {n : Nat}
    {query query' y : Nat → K} (hquery : metric.Defined n query) (hquery' : metric.Defined n query')
    (hy : metric.Defined n y) :
    |metric.rootDistance sqrt (op sqrt query' y n) - metric.rootDistance sqrt (op sqrt query y n)| ≤
      metric.rootError (vectorLength sqrt (arrayVector n query))
        (vectorLength sqrt (arrayVector n query' - arrayVector n query)) := by
  rcases hop.cases with ⟨rfl, rfl⟩ | ⟨rfl, rfl⟩
  · have hroot : ∀ q : Nat → K, DistanceMetric.l2sq.rootDistance sqrt (blobDistanceOp sqrt q y n) =
        vectorLength sqrt (arrayVector n q - arrayVector n y) := by
      intro q
      rw [DistanceMetric.rootDistance, DistanceMetric.squaredDistance, if_pos rfl, blobDistanceOp_eq]
      exact hsqrt.self_mul_self (hsqrt.nonneg _ (dotProduct_self_nonneg _))
    rw [hroot, hroot, DistanceMetric.rootError, if_pos rfl]
    refine (abs_vectorLength_sub_le hsqrt _ _).trans_eq ?_
    rw [sub_sub_sub_cancel_right]
  · have hq := arrayVector_ne_zero.mpr (hquery rfl)
    have hq' := arrayVector_ne_zero.mpr (hquery' rfl)
    have hy := arrayVector_ne_zero.mpr (hy rfl)
    have hroot : ∀ q : Nat → K, arrayVector n q ≠ 0 →
        DistanceMetric.cosine.rootDistance sqrt (blobCosineDistanceOp sqrt q y n) =
          vectorLength sqrt (unitVector sqrt (arrayVector n q) -
            unitVector sqrt (arrayVector n y)) := by
      intro q hne
      rw [DistanceMetric.rootDistance, DistanceMetric.squaredDistance, if_neg (by decide),
        blobCosineDistanceOp_of_ne_zero hsqrt hne hy, ← sqDist_unitVector hsqrt hne hy]
      rfl
    rw [hroot _ hq, hroot _ hq', DistanceMetric.rootError, if_neg (by decide)]
    refine (abs_vectorLength_sub_le hsqrt _ _).trans ?_
    rw [sub_sub_sub_cancel_right, le_div_iff₀ (vectorLength_pos hsqrt hq), mul_comm,
      vectorLength_sub_comm sqrt (unitVector sqrt (arrayVector n query')),
      vectorLength_sub_comm sqrt (arrayVector n query')]
    exact vectorLength_unitVector_sub_le hsqrt hq hq'

theorem DistanceMetric.rootError_mono {length error error' : K} (hlength : 0 ≤ length)
    (h : error ≤ error') : metric.rootError length error ≤ metric.rootError length error' := by
  unfold DistanceMetric.rootError
  split_ifs
  · exact h
  · exact div_le_div_of_nonneg_right (add_le_add h h) hlength

/-- The distances of an encoded query, and the rows that are nearest to it. -/
theorem encodedQuery_nearest (hsqrt : IsSqrt sqrt) (hop : metric.IsKernel op) {input : List Rat}
    {x : Nat} (hx : x < 4) (hfits : ∀ v ∈ input, FitsSelector id v x) {blob : List UInt8}
    (hblob : encodeFloatArrayToBlob id input = some blob)
    (hquery : metric.Defined input.length (listEmbedding (K := K) input))
    (hencoded : metric.Defined input.length (decodedEmbedding (K := K) id blob))
    {table : Nat → Nat → K} {R : Multiset Nat}
    (hrows : ∀ r ∈ R, metric.Defined input.length (table r)) :
    let distance := fun query r => metric.rootDistance sqrt (op sqrt query (table r) input.length)
    let error := metric.rootError (vectorLength sqrt (arrayVector input.length (listEmbedding input)))
      (sqrt input.length * ((blobScale id x / 2 : Rat) : K))
    blobDimensionCount blob.length = input.length ∧
    (∀ r ∈ R, |distance (decodedEmbedding id blob) r - distance (listEmbedding input) r| ≤ error) ∧
    ∀ k T, IsKSmallest (fun r => op sqrt (decodedEmbedding id blob) (table r) input.length) k R T →
      IsNearlyKSmallest (fun r r' => distance (listEmbedding input) r ≤
        distance (listEmbedding input) r' + (error + error)) k R T := by
  intro distance error
  obtain ⟨hdims, hnear⟩ := decodedEmbedding_near (K := K) hx hfits hblob
  have hstep : (0 : K) ≤ ((blobScale id x / 2 : Rat) : K) := by
    rw [Rat.cast_nonneg, blobScale_eq hx]
    exact div_nonneg (one_div_nonneg.mpr (le_trans (by norm_num) (blobInvScale_pos hx))) (by norm_num)
  have hlength : vectorLength sqrt (arrayVector input.length (decodedEmbedding (K := K) id blob) -
      arrayVector input.length (listEmbedding input)) ≤
        sqrt input.length * ((blobScale id x / 2 : Rat) : K) := by
    refine (vectorLength_le_of_abs_le hsqrt hstep fun i => ?_).trans_eq (by rw [Fintype.card_fin])
    exact hnear i i.isLt
  have hclose : ∀ r ∈ R,
      |distance (decodedEmbedding id blob) r - distance (listEmbedding input) r| ≤ error :=
    fun r hr => (abs_rootDistance_sub_le hsqrt hop hquery hencoded (hrows r hr)).trans
      (DistanceMetric.rootError_mono (vectorLength_nonneg hsqrt _) hlength)
  refine ⟨hdims, hclose, fun k T hsmallest => ?_⟩
  -- each of the two distances is off once
  refine (isKSmallest_iff_isNearlyKSmallest.mp hsmallest).mono fun r hr r' hr' hle => ?_
  have hroot : distance (decodedEmbedding id blob) r ≤ distance (decodedEmbedding id blob) r' :=
    (DistanceMetric.rootDistance_le_iff hsqrt (hop.nonneg hsqrt _ _ _)
      (hop.nonneg hsqrt _ _ _)).mpr hle
  have hfirst := abs_le.mp (hclose r hr)
  have hsecond := abs_le.mp (hclose r' hr')
  linarith

end Distances

/-- The query `[1 / 2, 1 / 4]`, which is stored in steps of `1 / 10000`, with both metrics. -/
theorem encodedQuery_nearest_half :
    encodeFloatArrayToBlob id [1 / 2, 1 / 4] =
      some (bytesOfInt16 (packInt16 5000 1) ++ bytesOfInt16 (packInt16 2500 1)) ∧
    (IsNearlyKSmallest (fun r r' : Nat =>
      DistanceMetric.l2sq.rootDistance Real.sqrt
          (blobDistanceOp Real.sqrt (listEmbedding [1 / 2, 1 / 4]) (fun d => (r + d : Nat)) 2) ≤
        DistanceMetric.l2sq.rootDistance Real.sqrt
            (blobDistanceOp Real.sqrt (listEmbedding [1 / 2, 1 / 4]) (fun d => (r' + d : Nat)) 2) +
          (Real.sqrt (2 : Nat) * ((blobScale id 1 / 2 : Rat) : Real) +
            Real.sqrt (2 : Nat) * ((blobScale id 1 / 2 : Rat) : Real))) 2 {3, 5} {3, 5}) ∧
    IsNearlyKSmallest (fun r r' : Nat =>
      DistanceMetric.cosine.rootDistance Real.sqrt
          (blobCosineDistanceOp Real.sqrt (listEmbedding [1 / 2, 1 / 4]) (fun d => (r + d : Nat)) 2) ≤
        DistanceMetric.cosine.rootDistance Real.sqrt
            (blobCosineDistanceOp Real.sqrt (listEmbedding [1 / 2, 1 / 4])
              (fun d => (r' + d : Nat)) 2) +
          (DistanceMetric.cosine.rootError
              (vectorLength Real.sqrt (arrayVector 2 (listEmbedding [1 / 2, 1 / 4])))
              (Real.sqrt (2 : Nat) * ((blobScale id 1 / 2 : Rat) : Real)) +
            DistanceMetric.cosine.rootError
              (vectorLength Real.sqrt (arrayVector 2 (listEmbedding [1 / 2, 1 / 4])))
              (Real.sqrt (2 : Nat) * ((blobScale id 1 / 2 : Rat) : Real)))) 2 {3, 5} {3, 5} := by
  have hblob : encodeFloatArrayToBlob id [1 / 2, 1 / 4] =
      some (bytesOfInt16 (packInt16 5000 1) ++ bytesOfInt16 (packInt16 2500 1)) := by
    decide +kernel
  have hfits : ∀ v ∈ ([1 / 2, 1 / 4] : List Rat), FitsSelector id v 1 := by decide +kernel
  have hrows : ∀ metric : DistanceMetric, ∀ r ∈ ({3, 5} : Multiset Nat),
      metric.Defined 2 fun d => ((r + d : Nat) : Real) := fun _ r _ _ =>
    ⟨1, by decide, Nat.cast_ne_zero.mpr (Nat.succ_ne_zero r)⟩
  have hquery : listEmbedding (K := Real) [1 / 2, 1 / 4] 0 ≠ 0 := by
    norm_num [listEmbedding]
  have hencoded : decodedEmbedding (K := Real) id
      (bytesOfInt16 (packInt16 5000 1) ++ bytesOfInt16 (packInt16 2500 1)) 0 ≠ 0 := by
    have hfirst : (decodeBlobToFloatArray id
        (bytesOfInt16 (packInt16 5000 1) ++ bytesOfInt16 (packInt16 2500 1))).getD 0 0 ≠ 0 := by
      decide +kernel
    exact Rat.cast_ne_zero.mpr hfirst
  refine ⟨hblob, ?_, ?_⟩
  · exact (encodedQuery_nearest isSqrt_sqrt isKernel_blobDistanceOp (by decide) hfits hblob
      nofun nofun (hrows .l2sq)).2.2 2 {3, 5} (.self (by decide))
  · exact (encodedQuery_nearest isSqrt_sqrt isKernel_blobCosineDistanceOp (by decide) hfits hblob
      (fun _ => ⟨0, by decide, hquery⟩) (fun _ => ⟨0, by decide, hencoded⟩)
      (hrows .cosine)).2.2 2 {3, 5} (.self (by decide))

end PDXearch
