import PDXearch.Scan.TableQueries

/-!
# What a scan of a created index is sure to find

An index of more than six dimensions does not answer exactly. The pruners that `CREATE INDEX` sets up
keep a ratio that depends on the number of dimensions alone, so that the rows that a scan emits are
not much farther away than any that it misses in the clusters that it probes. An F32 index keeps this
ratio of the squared distances; a U8 index adds the error of its codes.
-/

namespace PDXearch

open Lib ExactFloat

namespace CreateIndex.Created

variable {K : Type} [Field K] [LinearOrder K] [IsStrictOrderedRing K] {metric : DistanceMetric}
  {table : Nat → Nat → K} {rowIds : List Nat} {query : Nat → K} {limit nProbe : Nat} {std : StdSort}
  {threads : Nat} {tr : List (ScanSourceAction threads)}

section Pruners

variable {E D : Type} [Zero E] {op : CreateIndex K E D} {w : PDXearchWrapperParallel K E D}

/-- The pruners that the constructor has set up. -/
theorem prunersKeep (h : op.Created metric table rowIds w) (hsqrt : IsSqrt op.ctx.sqrt) :
    w.PrunersKeep (ADSamplingPruner.leastRatio K op.numDimensions) := by
  intro g rowGroup hrowGroup
  obtain ⟨⟨matrix, hpruner⟩, hdims⟩ := h.exists_pruner_eq hrowGroup
  rw [hpruner, hdims]
  exact ⟨rfl, ADSamplingPruner.keepsRatio_new (fun _ => hsqrt.pos)
    (fun x hx => hsqrt.mul_self x hx.le) _ _⟩

end Pruners

/-- In every run of the unfiltered scan of an F32 index: the chunks are a first part of the row ids of
some probed rows, as many as there are to find and in the order of their distances. Of the squared
distance of each, no missed row has less than the least ratio. -/
theorem scan_finds {op : CreateIndex K K (ExactFloat K)}
    {w : PDXearchWrapperParallel K K (ExactFloat K)} (h : op.Created metric table rowIds w)
    (hf32 : op.quantizationOf = quantizationF32) (hsqrt : IsSqrt op.ctx.sqrt) (hfilled : w.Filled)
    (hslots : ∀ r ∈ rowIds, getRowGroupId r < w.numRowGroups) (hlt : ∀ r ∈ rowIds, r < 2 ^ 32)
    (hk : 0 < limit) (hbits : limit < 2 ^ 32) {H : Type} [Heap H K]
    {arrays : Fin w.numRowGroups → ProbeState (ExactFloat K)}
    {s : ScanSourceState K H w.numRowGroups threads}
    (hrun : ((h.scannable (.refl w) hfilled hslots hlt (h.prunersKeep hsqrt).fit).scan limit
      (op.preprocess query) nProbe).SourceRun std arrays tr s) :
    let distance := fun r => op.preprocessor.indexDistance metric query (table r)
    ∃ found : List Nat, (ParallelScan.outputs tr).flatten <+: found ∧
      ((∃ i, s.getData i = .finished) → (ParallelScan.outputs tr).flatten = found) ∧
      IsNearlyKSmallest (fun r r' => distance r * ADSamplingPruner.leastRatio K op.numDimensions ≤
          distance r') limit
        (rowIds.filter fun r => w.isProbed std (op.preprocess query)
          ((h.scannable (.refl w) hfilled hslots hlt (h.prunersKeep hsqrt).fit).scan limit
            (op.preprocess query) nProbe).numClustersToProbePerRowGroup r) found ∧
      found.Pairwise fun r r' => distance r ≤ distance r' := by
  intro distance
  obtain ⟨rows, hset, hrows, hdims, hembedding⟩ := h.exists_rows (.refl w)
  have hscan := hf32 ▸ h.scannable (.refl w) hfilled hslots hlt (h.prunersKeep hsqrt).fit
  obtain ⟨found, hresult, hprefix, hfinished⟩ := hrun.exists_result
  obtain ⟨hnearly, hsorted⟩ := hscan.nearly_f32 hk hbits h.nodup (hf32 ▸ hset) hrows
    (ADSamplingPruner.leastRatio_nonneg op.numDimensions)
    (ADSamplingPruner.leastRatio_le_one op.numDimensions) (h.prunersKeep hsqrt) hresult
  have hdistance : ∀ r ∈ rowIds, rowDistance rows op.numDimensions (op.preprocess query) r =
      distance r := fun r hr => h.rowDistance_eq hembedding query hr
  rw [hdims] at hnearly hsorted
  have hmem : ∀ r ∈ found, r ∈ rowIds := fun r hr =>
    List.mem_of_mem_filter (Multiset.mem_coe.mp (Multiset.mem_of_le hnearly.le hr))
  refine ⟨found, hprefix, hfinished, hnearly.mono fun r hr r' hr' hnear => ?_,
    hsorted.imp_of_mem fun {r r'} hr hr' hle => ?_⟩
  · rwa [hdistance r (List.mem_of_mem_filter (Multiset.mem_coe.mp hr)),
      hdistance r' (List.mem_of_mem_filter (Multiset.mem_coe.mp hr'))] at hnear
  · rwa [hdistance r (hmem r hr), hdistance r' (hmem r' hr')] at hle

/-- Two threads, after the last call of each. -/
theorem scan_finds_line : ∃ (w : PDXearchWrapperParallel Real Real (ExactFloat Real))
    (hscan : w.Scannable lineIndexF32.ctx quantizationF32 lineRowIds)
    (tr : List (ScanSourceAction 2))
    (s : ScanSourceState Real (SortedQueue (KNNCandidate.distance (K := Real))) w.numRowGroups 2),
    lineIndexF32.Created .l2sq (lineTable Real) lineRowIds w ∧ w.numRowGroups = 2 ∧
    (hscan.scan 3 (lineIndexF32.preprocess fun _ => 0) 0).SourceRun .insertion
      (fun _ => .const (ofReal 0)) tr s ∧ (∀ i, s.getData i = .finished) ∧
    IsNearlyKSmallest (fun r r' : Nat =>
        lineIndexF32.preprocessor.indexDistance .l2sq (fun _ => 0) (lineTable Real r) *
            ADSamplingPruner.leastRatio Real 1 ≤
          lineIndexF32.preprocessor.indexDistance .l2sq (fun _ => 0) (lineTable Real r')) 3
      ((lineRowIds.filter fun r => w.isProbed .insertion (lineIndexF32.preprocess fun _ => 0)
        (hscan.scan 3 (lineIndexF32.preprocess fun _ => 0) 0).numClustersToProbePerRowGroup r :
          List Nat) : Multiset Nat) (ParallelScan.outputs tr).flatten := by
  obtain ⟨w, hcreated, hfilled, htwo, hslots, -⟩ := created_line quantizationF32 isSqrt_sqrt
  have hscan := hcreated.scannable (.refl w) hfilled hslots lt_of_mem_lineRowIds
    (hcreated.prunersKeep isSqrt_sqrt).fit
  obtain ⟨tr, s, hrun, hall⟩ := ParallelScan.exists_sourceRun_finished (htwo ▸ two_pos)
    (hscan.scan 3 (lineIndexF32.preprocess fun _ => 0) 0) StdSort.insertion
    (fun _ => .const (ofReal 0)) (SortedQueue (KNNCandidate.distance (K := Real))) 2
  obtain ⟨found, -, hcomplete, hnearly, -⟩ := hcreated.scan_finds rfl isSqrt_sqrt hfilled hslots
    lt_of_mem_lineRowIds three_pos (by decide) hrun
  exact ⟨w, hscan, tr, s, hcreated, htwo, hrun, hall, hcomplete ⟨0, hall 0⟩ ▸ hnearly⟩

end CreateIndex.Created

end PDXearch
