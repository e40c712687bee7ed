import PDXearch.Kernel.StartRuns
import PDXearch.Kernel.DropRules

/-!
# Every distance that reaches the heap is the full distance

`FullDistances` collects what holds of one cluster, for every query, selection and sequence of
threshold reads: which vectors are left after `Warmup` and `Prune`, and with which distances vectors
are merged or inserted. It holds of the clusters that `StoreClusterEmbeddings` lays out, with the
embeddings it was given.
-/

namespace PDXearch

open Lib ExactFloat PriorityQueue

/-- On `n` vectors laid out in `data`, with `term i d` the share of dimension `d` in the distance of
vector `i`. -/
structure FullDistances {K E D M : Type} [LinearOrder K] [LinearOrder D] [AddCommMonoid M]
    (S : Searcher K E D) (query data : Nat → E) (n : Nat) (term : Nat → Nat → M) (embed : M → D) :
    Prop where
  /-- `Warmup` with any answers, followed by `Prune` with any answers. -/
  probe : ∀ (filter : Option Selection) (s s₁ s₂ : ProbeState D)
    (warmupReads pruneReads : Nat → Nat → D),
    s₁ = ((S.warmup query data n filter s).run warmupReads).2 →
    s₂ = ((S.prune query data n filter s₁).run pruneReads).2 →
    s₁.currentDimensionIdx ≤ S.pdxData.numVerticalDimensions ∧
    s₂.notPruned = (List.range n).filter (fun i =>
      filter.all (fun sel => sel.selectionVector i) ∧
      ∀ e ∈ ((S.prune query data n filter s₁).run pruneReads).1,
        embed (partialAt term S.pdxData.numVerticalDimensions S.pdxData.numHorizontalDimensions
          s₁.currentDimensionIdx e.1 i) < e.2) ∧
    ∀ i ∈ s₂.notPruned,
      s₂.pruningDistances i = embed (∑ d ∈ Finset.range S.pdxData.numDimensions, term i d)
  start : ∀ {H : Type} [Heap H K] (std : StdSort) (k : Nat) (vectorIndices : Nat → Nat)
    (s : ProbeState D) (heap : H), ∃ inserted : List Nat, inserted.Nodup ∧ (∀ i ∈ inserted, i < n) ∧
      elems (S.start query data std n k vectorIndices s heap).1 =
        (inserted.map fun i => (⟨vectorIndices i, S.pdxData.quantization.floatOfDistance
          (embed (∑ d ∈ Finset.range S.pdxData.numDimensions, term i d))⟩ : KNNCandidate K) :
            List (KNNCandidate K)) + elems heap
  /-- A vector is inserted that the selection does not select only if more tuples are said to pass
  than are selected. -/
  filteredStart : ∀ {H : Type} [Heap H K] (std : StdSort) (k : Nat) (vectorIndices : Nat → Nat)
    (selection : Selection) (s : ProbeState D) (heap : H), ∃ inserted : List Nat, inserted.Nodup ∧
      (∀ i ∈ inserted, i < n) ∧
      elems (S.filteredStart query data std n k vectorIndices selection s heap).1 =
        (inserted.map fun i => (⟨vectorIndices i, S.pdxData.quantization.floatOfDistance
          (if selection.selectionVector i then
            embed (∑ d ∈ Finset.range S.pdxData.numDimensions, term i d)
          else S.pdxData.quantization.halfMax)⟩ : KNNCandidate K) : List (KNNCandidate K)) +
          elems heap ∧
      (selection.passingTuples ≤ (Searcher.selectedBy selection n).length →
        ∀ i ∈ inserted, selection.selectionVector i)

section General

variable {K E D M : Type} [AddCommMonoid M] {S : Searcher K E D} {query data : Nat → E} {n : Nat}
  {term term' : Nat → Nat → M} {embed : M → D} {v h : Nat}

theorem partialSum_congr {i : Nat} (hterm : ∀ d < v + h, term i d = term' i d) {a b : Nat}
    (ha : a ≤ v) (hb : b ≤ h) : partialSum term v i a b = partialSum term' v i a b := by
  rw [partialSum, partialSum]
  congr 1
  · exact Finset.sum_congr rfl fun d hd => hterm d (by have := Finset.mem_range.mp hd; omega)
  · exact Finset.sum_congr rfl fun d hd => hterm _ (by have := Finset.mem_range.mp hd; omega)

theorem partialAt_congr {i : Nat} (hterm : ∀ d < v + h, term i d = term' i d) {w idx : Nat}
    (hw : w ≤ v) (hidx : idx ≤ v + h) :
    partialAt term v h w idx i = partialAt term' v h w idx i := by
  rw [partialAt, partialAt]
  split_ifs
  · exact partialSum_congr hterm hw (by omega)
  · exact partialSum_congr hterm (by omega) le_rfl

variable [LinearOrder K] [LinearOrder D]

/-- From what the distance computers read to what was stored. -/
theorem fullDistances_of_measures
    (hm : Measures S.pdxData.quantization query data S.pdxData.numVerticalDimensions
      S.pdxData.numHorizontalDimensions n term embed)
    (hterm : ∀ i < n, ∀ d < S.pdxData.numDimensions, term i d = term' i d)
    (hmark : ∀ i < n, embed (fullSum term S.pdxData.numVerticalDimensions
      S.pdxData.numHorizontalDimensions i) < S.pdxData.quantization.halfMax) :
    FullDistances S query data n term' embed := by
  have hterm' : ∀ i < n, ∀ d < S.pdxData.numVerticalDimensions + S.pdxData.numHorizontalDimensions,
      term i d = term' i d := fun i hi d hd =>
    hterm i hi d (S.pdxData.vertical_add_horizontal ▸ hd)
  have hfull : ∀ i < n, fullSum term S.pdxData.numVerticalDimensions
      S.pdxData.numHorizontalDimensions i =
      ∑ d ∈ Finset.range S.pdxData.numDimensions, term' i d := by
    intro i hi
    rw [fullSum, partialSum_congr (hterm' i hi) le_rfl le_rfl, partialSum_full,
      IndexPDXIVF.vertical_add_horizontal]
  refine ⟨?_, ?_, ?_⟩
  · rintro filter s s₁ s₂ warmupReads pruneReads rfl rfl
    obtain ⟨hw, -, hdist⟩ := Searcher.warmup_runs S.hasDims hm (Client.runs_run _ warmupReads)
    obtain ⟨hkept, hdistances, hreads⟩ := Searcher.prune_runs S.hasDims hm hw rfl hdist
      (Client.runs_run _ pruneReads)
    refine ⟨hw.2.2.1, hkept.trans (List.filter_congr fun i hi => decide_eq_decide.mpr ?_),
      fun i hi => ?_⟩
    · refine and_congr_right fun _ => forall₂_congr fun e he => ?_
      rw [partialAt_congr (hterm' i (List.mem_range.mp hi)) hw.2.2.1 (hreads e he)]
    · rw [hdistances i hi, hfull]
      exact List.mem_range.mp (List.mem_filter.mp (hkept ▸ hi)).1
  · intro H _ std k vectorIndices s heap
    obtain ⟨inserted, hkeep, helems⟩ := Searcher.start_inserts S.hasDims hm std k vectorIndices s heap
    have hlt : ∀ i ∈ inserted, i < n := fun i hi =>
      List.mem_range.mp (Multiset.mem_coe.mp (Multiset.mem_of_le hkeep.le (Multiset.mem_coe.mpr hi)))
    refine ⟨inserted, Multiset.coe_nodup.mp (Multiset.nodup_of_le hkeep.le
      (Multiset.coe_nodup.mpr List.nodup_range)), hlt, helems.trans ?_⟩
    congr 2
    exact List.map_congr_left fun i hi => by rw [hfull i (hlt i hi)]
  · intro H _ std k vectorIndices selection s heap
    obtain ⟨inserted, hnodup, hlt, helems, hselected⟩ := Searcher.filteredStart_inserts S.hasDims hm
      hmark std k vectorIndices selection s heap
    refine ⟨inserted, hnodup, hlt, helems.trans ?_, fun hcount => (hselected hcount).1⟩
    congr 2
    exact List.map_congr_left fun i hi => by rw [hfull i (hlt i hi)]

end General

variable {K : Type} [Field K] [LinearOrder K] [FloorRing K]

/-- A cluster of `n` embeddings laid out by `StoreClusterEmbeddings`, F32 and U8. -/
theorem fullDistances_storeClusterEmbeddings (S : Searcher K K (ExactFloat K))
    (S' : Searcher K UInt8 Nat) (maxValue : UInt8) (params : ScalarQuantizationParams K)
    (hS : S.pdxData.quantization = Quantization.f32)
    (hS' : S'.pdxData.quantization = Quantization.u8 maxValue params)
    (hdims : S'.pdxData.numDimensions ≤ pdxMaxDims) (n : Nat) (query buffer : Nat → K)
    (embeddings : Nat → Nat → K) (query' buffer' : Nat → UInt8) (embeddings' : Nat → Nat → UInt8) :
    FullDistances S query
      (store (storeClusterEmbeddingsF32 S.pdxData.numVerticalDimensions
        S.pdxData.numHorizontalDimensions n embeddings) buffer) n
      (fun i d => (query d - embeddings i d) ^ 2) ofReal ∧
    FullDistances S' query'
      (store (storeClusterEmbeddingsU8 S'.pdxData.numVerticalDimensions
        S'.pdxData.numHorizontalDimensions n embeddings') buffer') n
      (fun i d => sqDiff (query' d) (embeddings' i d)) id := by
  constructor
  · refine fullDistances_of_measures (hS ▸ Quantization.f32_measures query _ _ _ n)
      (fun i hi d hd => ?_) fun i hi => ?_
    · rw [termF32, readF32_store S.pdxData.hDimSize_dvd buffer hi
        (S.pdxData.vertical_add_horizontal ▸ hd)]
    · rw [hS]
      exact ofReal_lt_halfMax _
  · refine fullDistances_of_measures (hS' ▸ Quantization.u8_measures maxValue params query' _ n
      (S'.pdxData.vertical_add_horizontal ▸ hdims)) (fun i hi d hd => ?_) fun i hi => ?_
    · rw [termU8, readU8_store S'.pdxData.hDimSize_dvd buffer' hi
        (S'.pdxData.vertical_add_horizontal ▸ hd)]
    · rw [hS']
      exact Quantization.partialSum_termU8_lt query' _ n i
        (S'.pdxData.vertical_add_horizontal ▸ hdims) le_rfl le_rfl

/-- A searcher of 67 dimensions, 64 horizontal ones and 3 vertical ones. -/
def searcher67 {E D : Type} [Zero E] (quantization : Quantization Rat E D) : Searcher Rat E D :=
  Searcher.new ⟨67, 0, fun _ => 0, fun _ => 1⟩
    { numDimensions := 67
      totalNumEmbeddings := 0
      numClusters := 0
      clusters := []
      isNormalized := false
      centroids := fun _ => 0
      quantization := quantization }

theorem fullDistances_storeClusterEmbeddings_two :
    FullDistances (searcher67 Quantization.f32) (fun d => (d : Rat))
      (store (storeClusterEmbeddingsF32
        (searcher67 (Quantization.f32 (K := Rat))).pdxData.numVerticalDimensions
        (searcher67 (Quantization.f32 (K := Rat))).pdxData.numHorizontalDimensions 2
        fun i d => (i + d : Rat)) fun _ => 0) 2 (fun i d => ((d : Rat) - (i + d)) ^ 2) ofReal ∧
    FullDistances (searcher67 (Quantization.u8 255 ⟨0, 1⟩)) (fun _ => 7)
      (store (storeClusterEmbeddingsU8
        (searcher67 (Quantization.u8 (K := Rat) 255 ⟨0, 1⟩)).pdxData.numVerticalDimensions
        (searcher67 (Quantization.u8 (K := Rat) 255 ⟨0, 1⟩)).pdxData.numHorizontalDimensions 2
        fun i d => UInt8.ofNat (i + d)) fun _ => 0) 2 (fun i d => sqDiff 7 (UInt8.ofNat (i + d))) id :=
  fullDistances_storeClusterEmbeddings (searcher67 Quantization.f32)
    (searcher67 (Quantization.u8 255 ⟨0, 1⟩)) 255 ⟨0, 1⟩ rfl rfl (by decide) 2 (fun d => (d : Rat))
    (fun _ => 0) (fun i d => (i + d : Rat)) (fun _ => 7) (fun _ => 0) fun i d => UInt8.ofNat (i + d)

end PDXearch
