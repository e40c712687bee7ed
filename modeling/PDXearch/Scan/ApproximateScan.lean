import PDXearch.Scan.IndexScan

/-!
# How near the rows of a scan are

The candidates of the F32 index are at the distances of the rows' embeddings, so that with pruners
that keep a ratio no row that was missed is nearer than this fraction of a row that was found, and
with lossless pruners the nearest rows are found. The candidates of the U8 index are at the distances
of codes.
-/

namespace PDXearch

open Lib ExactFloat

namespace PDXearchWrapperParallel

/-! ## F32 -/

namespace Scannable

section F32

variable {K : Type} [Field K] [LinearOrder K] [IsStrictOrderedRing K]
  {w : PDXearchWrapperParallel K K (ExactFloat K)} {ctx : BuildContext K K} {rowIds : List Nat}
  {limit nProbe : Nat} {query : Nat → K} {std : StdSort} {rows : Nat → Option (EmbeddingBuffer K)}

omit [IsStrictOrderedRing K] in
theorem quantization_f32 (h : w.Scannable ctx quantizationF32 rowIds) (g : Fin w.numRowGroups) :
    (h.rowGroup g).searcher.pdxData.quantization = Quantization.f32 := by
  obtain ⟨rows, hset, -⟩ := h.setUpWith
  obtain ⟨buffer, -, hsame⟩ := hset.exists_buffer (h.rowGroup_mem g)
  exact congrArg IndexPDXIVF.quantization hsame.pdxData_eq

/-- The measure of a row group's searcher. -/
def measureF32 (h : w.Scannable ctx quantizationF32 rowIds) (limit : Nat) (query : Nat → K)
    (nProbe : Nat) (std : StdSort) (g : Fin w.numRowGroups) :
    DistanceMeasure ((h.scan limit query nProbe).searcher std g) K :=
  DistanceMeasure.f32 _ (h.quantization_f32 g)

omit [IsStrictOrderedRing K] in
theorem measuresRows_f32 (h : w.Scannable ctx quantizationF32 rowIds)
    (hset : w.SetUpWith ctx quantizationF32 rows) (hrows : ∀ r, IsRowOf rows r ↔ r ∈ rowIds) :
    h.MeasuresRows (h.measureF32 limit query nProbe std)
      (rowDistance rows w.numDimensions query) where
  isMeasure g := isMeasure_f32 (S := (h.scan limit query nProbe).searcher std g)
    (h.quantization_f32 g)
  candidate_eq g r hr hgroup := by
    have hrowGroup : h.rowGroup g ∈ w.rowGroups (getRowGroupId r) := hgroup.symm ▸ h.rowGroup_mem g
    have hprepared : ((h.scan limit query nProbe).searcher std g).preparedQuery = query :=
      congrArg (fun Q : Quantization K K (ExactFloat K) => Q.prepareQuery query)
        (h.quantization_f32 g)
    have hvector := hset.vectorF32_slotOf (S := (h.scan limit query nProbe).searcher std g)
      ((hrows r).mpr hr) hrowGroup rfl
    rw [hprepared] at hvector
    exact (candidate_f32 (S := (h.scan limit query nProbe).searcher std g) (h.quantization_f32 g)
      _ _).trans hvector

/-- With pruners that keep `ratio`. -/
theorem nearly_f32 (h : w.Scannable ctx quantizationF32 rowIds) (hk : 0 < limit)
    (hbits : limit < 2 ^ 32) (hnodup : rowIds.Nodup) (hset : w.SetUpWith ctx quantizationF32 rows)
    (hrows : ∀ r, IsRowOf rows r ↔ r ∈ rowIds) {ratio : K} (hratio : 0 ≤ ratio) (hone : ratio ≤ 1)
    (hkeeps : w.PrunersKeep ratio) {H : Type} [Heap H K]
    {arrays : Fin w.numRowGroups → ProbeState (ExactFloat K)} {result : List Nat}
    (hresult : (h.scan limit query nProbe).IsSearchResult std H arrays result) :
    IsNearlyKSmallest (fun r r' => rowDistance rows w.numDimensions query r * ratio ≤
        rowDistance rows w.numDimensions query r') limit
        (rowIds.filter fun r => w.isProbed std query
          (h.scan limit query nProbe).numClustersToProbePerRowGroup r) result ∧
      result.Pairwise fun r r' =>
        rowDistance rows w.numDimensions query r ≤ rowDistance rows w.numDimensions query r' := by
  have hrule : ∀ g, DropRule (h.measureF32 limit query nProbe std g) AnyAnswer
      (NearTop ratio fun _ => 0) := fun g =>
    nearTop_f32 (S := (h.scan limit query nProbe).searcher std g) (h.quantization_f32 g)
      (hkeeps g _ (h.rowGroup_mem g)).1 hratio hone (hkeeps g _ (h.rowGroup_mem g)).2 fun _ => le_rfl
  obtain ⟨hnearly, hsorted⟩ := h.nearly_of_isSearchResult hk hbits hnodup hset hrows
    (h.measuresRows_f32 hset hrows) (fun r _ => Finset.sum_nonneg fun d _ => sq_nonneg _) hratio hone
    (fun _ => le_rfl) hrule hresult
  simp only [add_zero] at hnearly
  exact ⟨hnearly, hsorted⟩

/-- With lossless pruners the row ids are those of the nearest probed rows. -/
theorem nearest_of_isSearchResult (h : w.Scannable ctx quantizationF32 rowIds) (hk : 0 < limit)
    (hbits : limit < 2 ^ 32) (hnodup : rowIds.Nodup) (hset : w.SetUpWith ctx quantizationF32 rows)
    (hrows : ∀ r, IsRowOf rows r ↔ r ∈ rowIds) (hpruners : FilteredScan.LosslessPruners w)
    {H : Type} [Heap H K] {arrays : Fin w.numRowGroups → ProbeState (ExactFloat K)}
    {result : List Nat}
    (hresult : (h.scan limit query nProbe).IsSearchResult std H arrays result) :
    IsKSmallest (rowDistance rows w.numDimensions query) limit
        (rowIds.filter fun r => w.isProbed std query
          (h.scan limit query nProbe).numClustersToProbePerRowGroup r) result ∧
      result.Pairwise fun r r' =>
        rowDistance rows w.numDimensions query r ≤ rowDistance rows w.numDimensions query r' := by
  obtain ⟨hnearly, hsorted⟩ := h.nearly_f32 hk hbits hnodup hset hrows zero_le_one le_rfl hpruners
    hresult
  simp only [mul_one] at hnearly
  exact ⟨hnearly, hsorted⟩

end F32

end Scannable

/-! ## U8 -/

section Codes

variable {K : Type} [Field K] [LinearOrder K]

variable [IsStrictOrderedRing K] {maxValue : UInt8} {rows : Nat → Option (EmbeddingBuffer K)}
  {numDimensions : Nat}

end Codes

section RowErrors

variable {K : Type} [Field K] [LinearOrder K] [IsStrictOrderedRing K] [FloorRing K]
  {w : PDXearchWrapperParallel K UInt8 Nat} {ctx : BuildContext K UInt8} {maxValue : UInt8}
  {rows : Nat → Option (EmbeddingBuffer K)}

end RowErrors

namespace Scannable

section U8

variable {K : Type} [Field K] [LinearOrder K] [FloorRing K]
  {w : PDXearchWrapperParallel K UInt8 Nat} {ctx : BuildContext K UInt8} {rowIds : List Nat}
  {maxValue : UInt8} {limit nProbe : Nat} {query : Nat → K} {std : StdSort}
  {rows : Nat → Option (EmbeddingBuffer K)}

variable [IsStrictOrderedRing K]

end U8

end Scannable

end PDXearchWrapperParallel

end PDXearch
