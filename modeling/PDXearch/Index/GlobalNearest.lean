import PDXearch.Index.GlobalIndex
import PDXearch.Index.RowDistances
import PDXearch.Kernel.LosslessGlobal

/-!
# The nearest rows of a global index

In a global index whose slots hold the rows' embeddings, a lossless search takes the rows cluster by
cluster. So what it returns are the nearest rows exactly when the cut of the cluster that fills the
heap is harmless, in terms of the distances of the rows.
-/

namespace PDXearch

open Lib ExactFloat PriorityQueue

/-- The rows of some clusters, cluster by cluster. -/
def rowsByCluster (slotOf : Nat → RowIdClusterMapping) (selected clusters : List Nat) :
    List (Multiset Nat) :=
  clusters.map fun c => (selected.filter fun r => (slotOf r).clusterId = c : List Nat)

theorem sum_rowsByCluster {slotOf : Nat → RowIdClusterMapping} {selected clusters : List Nat}
    (hnodup : clusters.Nodup) : (rowsByCluster slotOf selected clusters).sum =
      (selected.filter fun r => (slotOf r).clusterId ∈ clusters : List Nat) := by
  induction clusters with
  | nil => simp [rowsByCluster]
  | cons c clusters ih =>
    obtain ⟨hnot, hrest⟩ := List.nodup_cons.mp hnodup
    have ih := ih hrest
    rw [rowsByCluster] at ih ⊢
    rw [List.map_cons, List.sum_cons, ih, ← Multiset.filter_coe, ← Multiset.filter_coe,
      ← Multiset.filter_coe, Multiset.filter_add_filter]
    have hnone : (selected : Multiset Nat).filter (fun r => (slotOf r).clusterId = c ∧
        (slotOf r).clusterId ∈ clusters) = 0 := by
      refine Multiset.filter_eq_nil.mpr fun r _ hboth => ?_
      exact hnot (hboth.1 ▸ hboth.2)
    rw [hnone, add_zero]
    exact Multiset.filter_congr fun r _ => List.mem_cons.symm

theorem mem_of_mem_rowsByCluster {slotOf : Nat → RowIdClusterMapping} {selected clusters : List Nat}
    {r : Nat} (hr : r ∈ (rowsByCluster slotOf selected clusters).sum) : r ∈ selected := by
  induction clusters with
  | nil => exact absurd hr (Multiset.notMem_zero r)
  | cons c clusters ih =>
    rw [rowsByCluster, List.map_cons, List.sum_cons] at hr
    rcases Multiset.mem_add.mp hr with hr | hr
    · exact List.mem_of_mem_filter (Multiset.mem_coe.mp hr)
    · exact ih hr

theorem rowsByCluster_perm {slotOf : Nat → RowIdClusterMapping} {selected selected' clusters : List Nat}
    (h : selected.Perm selected') :
    rowsByCluster slotOf selected clusters = rowsByCluster slotOf selected' clusters :=
  List.map_congr_left fun _ _ => Multiset.coe_eq_coe.mpr (h.filter _)

variable {K : Type} [Field K] [LinearOrder K] {n : Nat} {rowIds : Nat → Nat}
  {slotRow : Nat → Nat → Nat} {slotOf : Nat → RowIdClusterMapping}
  {S : Searcher K K (ExactFloat K)} {distance : Nat → K} {filters : Nat → Option Selection}
  {selected clusters : List Nat}

/-- The slots hold vectors at these distances. -/
def Searcher.HoldsRows (S : Searcher K K (ExactFloat K)) (slotRow : Nat → Nat → Nat)
    (distance : Nat → K) : Prop :=
  ∀ c p, IsSlot S.pdxData c p →
    vectorF32 S c p = ⟨slotRow c p % 2 ^ 32, ofReal (distance (slotRow c p))⟩

namespace RowsInSlots

/-- The selected vectors of a cluster are those of the selected rows that are there. -/
theorem vectorsF32_eq (h : RowsInSlots n rowIds slotRow slotOf S)
    (hholds : S.HoldsRows slotRow distance) (hselects : S.Selects slotRow filters selected)
    (hnodup : selected.Nodup) (hindexed : ∀ r ∈ selected, ∃ e < n, rowIds e = r) {c : Nat}
    (hc : c < S.pdxData.numClusters) :
    (vectorsF32 S c (filters c) : Multiset (KNNCandidate K)) =
      ((selected.filter fun r => (slotOf r).clusterId = c : List Nat) : Multiset Nat).map fun r =>
        ⟨r % 2 ^ 32, ofReal (distance r)⟩ := by
  have hvectors : vectorsF32 S c (filters c) =
      ((DistanceMeasure.selectedSlots S c (filters c)).map (slotRow c)).map fun r =>
        (⟨r % 2 ^ 32, ofReal (distance r)⟩ : KNNCandidate K) := by
    rw [vectorsF32, List.map_map]
    exact List.map_congr_left fun p hp =>
      hholds c p ⟨hc, List.mem_range.mp (List.mem_of_mem_filter hp)⟩
  have hrows := h.selectedRows_perm hselects hnodup hindexed (List.nodup_singleton c)
    fun c' hc' => List.mem_singleton.mp hc' ▸ hc
  simp only [List.flatMap_singleton, List.mem_singleton] at hrows
  rw [hvectors, Multiset.map_coe]
  exact Multiset.coe_eq_coe.mpr (hrows.map _)

variable [IsStrictOrderedRing K]

theorem visitClusters_nearest_iff (h : RowsInSlots n rowIds slotRow slotOf S)
    (hS : S.pdxData.quantization = Quantization.f32)
    (hdims : S.pruner.numDimensions = S.pdxData.numDimensions) (hlossless : S.pruner.Lossless)
    (hholds : S.HoldsRows slotRow distance) (std : StdSort) {k : Nat} (hk : 0 < k)
    (hselects : S.Selects slotRow filters selected) (hnodup : selected.Nodup)
    (hindexed : ∀ r ∈ selected, ∃ e < n, rowIds e = r) (hlt32 : ∀ r ∈ selected, r < 2 ^ 32)
    {skip : Nat → Bool} (hclusters : clusters.Nodup) (hlt : ∀ c ∈ clusters, c < S.pdxData.numClusters)
    (hskip : ∀ c ∈ clusters, skip c → vectorsF32 S c (filters c) = [])
    (hcounts : ∀ c ∈ clusters, S.FilterCounts c (filters c)) (s : ProbeState (ExactFloat K))
    (H : Type) [Heap H K] {result : List Nat}
    (hresult : result = (buildResultSetFromHeap (K := K) k (S.visitClusters std k S.preparedQuery skip
      filters clusters (PriorityQueue.empty : H) s)).map KNNCandidate.index) :
    (IsKSmallest distance k (selected.filter fun r => (slotOf r).clusterId ∈ clusters : List Nat)
        result ∧ result.Pairwise fun r r' => distance r ≤ distance r') ↔
      CutHarmless distance k 0 (rowsByCluster slotOf selected clusters) := by
  have hbatches : (clusters.map fun c => (vectorsF32 S c (filters c) : Multiset (KNNCandidate K))) =
      (rowsByCluster slotOf selected clusters).map (Multiset.map fun r =>
        (⟨r % 2 ^ 32, ofReal (distance r)⟩ : KNNCandidate K)) := by
    rw [rowsByCluster, List.map_map]
    exact List.map_congr_left fun c hc =>
      h.vectorsF32_eq hholds hselects hnodup hindexed (hlt c hc)
  have hsum : (clusters.map fun c =>
      (vectorsF32 S c (filters c) : Multiset (KNNCandidate K))).sum =
        ((selected.filter fun r => (slotOf r).clusterId ∈ clusters).map fun r =>
          (⟨r % 2 ^ 32, ofReal (distance r)⟩ : KNNCandidate K) : List (KNNCandidate K)) := by
    rw [hbatches, ← Multiset.map_coe, ← sum_rowsByCluster hclusters]
    exact (map_list_sum (Multiset.mapAddMonoidHom _) _).symm
  have hexact := Searcher.visitClusters_exact_iff (H := H) hS hdims hlossless hk std hskip hcounts s
  obtain ⟨hfills, -⟩ := Searcher.buildResultSet_fills (H := H) (isMeasure_f32 hS) std hk
    (fun c hc hc' => (Searcher.candidates_f32 hS c _).trans (hskip c hc hc')) hcounts s
  have hmem : ∀ x ∈ buildResultSetFromHeap (K := K) k (S.visitClusters std k S.preparedQuery skip
      filters clusters (PriorityQueue.empty : H) s),
      x ∈ (selected.filter fun r => (slotOf r).clusterId ∈ clusters).map fun r =>
        (⟨r % 2 ^ 32, ofReal (distance r)⟩ : KNNCandidate K) := by
    intro x hx
    have hx := Multiset.mem_of_le hfills.le (Multiset.mem_coe.mpr hx)
    rw [zero_add, Multiset.mem_coe] at hx
    obtain ⟨c, hc, hx⟩ := List.mem_flatMap.mp hx
    rw [Searcher.candidates_f32, ← Multiset.mem_coe,
      h.vectorsF32_eq hholds hselects hnodup hindexed (hlt c hc), Multiset.map_coe,
      Multiset.mem_coe] at hx
    obtain ⟨r, hr, rfl⟩ := List.mem_map.mp hx
    obtain ⟨hr, hcluster⟩ := List.mem_filter.mp hr
    refine List.mem_map_of_mem (List.mem_filter.mpr ⟨hr, decide_eq_true ?_⟩)
    rwa [of_decide_eq_true hcluster]
  have hlt' : ∀ r ∈ selected.filter fun r => (slotOf r).clusterId ∈ clusters, r < 2 ^ 32 :=
    fun r hr => hlt32 r (List.mem_of_mem_filter hr)
  rw [hsum, nearest_candidates_iff hlt' hmem, ← hresult] at hexact
  rw [hexact, hbatches, ← Multiset.map_zero, cutHarmless_map]
  exact cutHarmless_congr fun _ _ _ _ => ofReal_le

end RowsInSlots

/-! ## The searches of the wrapper -/

namespace PDXearchWrapperGlobal

/-- The clusters that a search visits, in order. -/
def visitedClusters {K E D : Type} [Field K] [LinearOrder K] (w : PDXearchWrapperGlobal K E D)
    (context : SearchContext K D) (queryEmbedding : Nat → K) (nProbe : Nat) : List Nat :=
  w.searcher.toList.flatMap fun searcher => (searcher.setNProbe nProbe).visitedClusters context.std
    ((searcher.setNProbe nProbe).globalQuery id context.sqrt context.memory queryEmbedding)

/-- `result` are the nearest of the rows in the clusters that a search visits, at most `limit`, in
order. -/
def FindsNearest {K E D : Type} [Field K] [LinearOrder K] (w : PDXearchWrapperGlobal K E D)
    (context : SearchContext K D) (queryEmbedding : Nat → K) (nProbe : Nat) (distance : Nat → K)
    (limit : Nat) (rows result : List Nat) : Prop :=
  IsKSmallest distance limit (rows.filter (w.isVisited context queryEmbedding nProbe) : List Nat)
      result ∧
    result.Pairwise fun r r' => distance r ≤ distance r'

/-- The cut of the cluster that fills the heap does no harm. -/
def CutsHarmlessly {K E D : Type} [Field K] [LinearOrder K] (w : PDXearchWrapperGlobal K E D)
    (context : SearchContext K D) (queryEmbedding : Nat → K) (nProbe : Nat) (distance : Nat → K)
    (limit : Nat) (rows : List Nat) : Prop :=
  CutHarmless distance limit 0 (rowsByCluster w.rowIdClusterMapping rows
    (w.visitedClusters context queryEmbedding nProbe))

section Order

variable {K E D : Type} [Field K] [LinearOrder K] {w : PDXearchWrapperGlobal K E D}
  {context : SearchContext K D} {queryEmbedding : Nat → K} {nProbe limit : Nat}
  {distance distance' : Nat → K} {rows rows' result : List Nat}

theorem findsNearest_perm (h : rows.Perm rows') :
    w.FindsNearest context queryEmbedding nProbe distance limit rows result ↔
      w.FindsNearest context queryEmbedding nProbe distance limit rows' result := by
  rw [FindsNearest, Multiset.coe_eq_coe.mpr (h.filter _)]
  rfl

theorem cutsHarmlessly_perm (h : rows.Perm rows') :
    w.CutsHarmlessly context queryEmbedding nProbe distance limit rows ↔
      w.CutsHarmlessly context queryEmbedding nProbe distance limit rows' := by
  rw [CutsHarmlessly, rowsByCluster_perm h]
  rfl

/-- No more rows than are asked for. -/
theorem cutsHarmlessly_of_length_le (h : rows.length ≤ limit) :
    w.CutsHarmlessly context queryEmbedding nProbe distance limit rows := by
  have hnodup : (w.visitedClusters context queryEmbedding nProbe).Nodup := by
    rw [visitedClusters]
    cases w.searcher with
    | none => exact List.nodup_nil
    | some S =>
      rw [Option.toList_some, List.flatMap_singleton]
      exact (S.setNProbe nProbe).nodup_visitedClusters context.std _
  refine cutHarmless_of_card_le ?_
  rw [zero_add, sum_rowsByCluster hnodup, Multiset.coe_card]
  exact (List.length_filter_le _ _).trans h

theorem mem_of_findsNearest
    (h : w.FindsNearest context queryEmbedding nProbe distance limit rows result) {r : Nat}
    (hr : r ∈ result) : r ∈ rows :=
  List.mem_of_mem_filter (Multiset.mem_coe.mp (Multiset.mem_of_le h.1.le (Multiset.mem_coe.mpr hr)))

theorem FindsNearest.congr (h : w.FindsNearest context queryEmbedding nProbe distance limit rows result)
    (hle : ∀ r ∈ rows, ∀ r' ∈ rows, distance r ≤ distance r' → distance' r ≤ distance' r') :
    w.FindsNearest context queryEmbedding nProbe distance' limit rows result := by
  refine ⟨h.1.congr_key fun r hr r' hr' => ?_, h.2.imp_of_mem fun hr hr' => ?_⟩
  · exact hle r (List.mem_of_mem_filter (Multiset.mem_coe.mp hr)) r'
      (List.mem_of_mem_filter (Multiset.mem_coe.mp hr'))
  · exact hle _ (mem_of_findsNearest h hr) _ (mem_of_findsNearest h hr')

/-- Only the order of the rows matters. -/
theorem findsNearest_congr
    (hle : ∀ r ∈ rows, ∀ r' ∈ rows, distance r ≤ distance r' ↔ distance' r ≤ distance' r') :
    w.FindsNearest context queryEmbedding nProbe distance limit rows result ↔
      w.FindsNearest context queryEmbedding nProbe distance' limit rows result :=
  ⟨fun h => h.congr fun r hr r' hr' => (hle r hr r' hr').mp,
    fun h => h.congr fun r hr r' hr' => (hle r hr r' hr').mpr⟩

theorem cutsHarmlessly_congr
    (hle : ∀ r ∈ rows, ∀ r' ∈ rows, distance r ≤ distance r' ↔ distance' r ≤ distance' r') :
    w.CutsHarmlessly context queryEmbedding nProbe distance limit rows ↔
      w.CutsHarmlessly context queryEmbedding nProbe distance' limit rows := by
  refine cutHarmless_congr fun r hr r' hr' => ?_
  rw [zero_add] at hr hr'
  exact hle r (mem_of_mem_rowsByCluster hr) r' (mem_of_mem_rowsByCluster hr')

end Order

/-- The searcher prunes losslessly, and turns the query into `query` before it searches. -/
structure SearchesWith (w : PDXearchWrapperGlobal K K (ExactFloat K))
    (context : SearchContext K (ExactFloat K)) (queryEmbedding query : Nat → K) : Prop where
  numDimensions_eq : ∀ S ∈ w.searcher, S.pruner.numDimensions = S.pdxData.numDimensions
  lossless : ∀ S ∈ w.searcher, S.pruner.Lossless
  globalQuery_eq : ∀ S ∈ w.searcher, S.globalQuery id context.sqrt context.memory queryEmbedding = query

variable {w : PDXearchWrapperGlobal K K (ExactFloat K)} {ctx : BuildContext K K}
  {buffer : EmbeddingBuffer K} {context : SearchContext K (ExactFloat K)}
  {queryEmbedding query : Nat → K}

/-- Every slot holds the embedding that its row was given with. -/
theorem SetUpWith.holdsRows (h : w.SetUpWith ctx quantizationF32 buffer)
    (hdistance : ∀ e < buffer.count, distance (buffer.rowIds e) =
      ∑ d ∈ Finset.range w.numDimensions, (query d - buffer.embeddings (e * w.numDimensions + d)) ^ 2)
    (hS : S ∈ w.searcher) :
    (S.withQuery query).HoldsRows
      (rowOfSlot ctx w.numClusters buffer.rowIds buffer.embeddings buffer.count) distance := by
  obtain ⟨S', hS', hsame, hrows⟩ := h.exists_rowsInSlots
  obtain rfl := Option.some.inj (hS.symm.trans hS')
  intro c p hslot
  have hbuilt : BuiltFrom (w.buildInput ctx quantizationF32 w.numClusters id buffer.rowIds
      buffer.embeddings buffer.count) (w.builtSearcher ctx (w.buildInput ctx quantizationF32
        w.numClusters id buffer.rowIds buffer.embeddings buffer.count) buffer.count) :=
    builtFrom_buildInput w.toPDXearchWrapper w.numClusters id
  have hslot' := hsame.pdxData_eq ▸ hslot
  obtain ⟨hlt, -⟩ := hbuilt.embeddingAt_slot
    (fun c => computeKMeans_assignments ctx.kmeans buffer.embeddings buffer.count _ c) hslot'
  refine KNNCandidate.ext (hrows.indices c p hslot) (congrArg ofReal ?_)
  have hdims : S.pdxData.numDimensions = w.numDimensions :=
    congrArg IndexPDXIVF.numDimensions hsame.pdxData_eq
  refine Eq.trans ?_ (hdistance _ hlt).symm
  refine Finset.sum_congr (congrArg Finset.range hdims) fun d hd => ?_
  have hstored := hbuilt.readBack f32_reads hslot' (Finset.mem_range.mp hd)
  rw [← hsame.pdxData_eq] at hstored
  exact congrArg (fun x => (query d - x) ^ 2) hstored

variable [IsStrictOrderedRing K]

/-- A loop over the clusters that a search visits. -/
theorem SetUpWith.visitClusters_nearest_iff (h : w.SetUpWith ctx quantizationF32 buffer)
    (hsearches : w.SearchesWith context queryEmbedding query)
    (hdistance : ∀ e < buffer.count, distance (buffer.rowIds e) =
      ∑ d ∈ Finset.range w.numDimensions, (query d - buffer.embeddings (e * w.numDimensions + d)) ^ 2)
    {k : Nat} (hk : 0 < k) (nProbe : Nat) (hS : w.searcher = some S)
    (hselects : S.Selects
      (rowOfSlot ctx w.numClusters buffer.rowIds buffer.embeddings buffer.count) filters selected)
    (hnodup : selected.Nodup) (hindexed : ∀ r ∈ selected, r ∈ CreateIndex.bufferedRowIds buffer)
    (hlt32 : ∀ r ∈ selected, r < 2 ^ 32) (skip : Nat → Bool)
    (hskip : ∀ c < S.pdxData.numClusters, skip c →
      DistanceMeasure.selectedSlots S c (filters c) = [])
    (hcounts : ∀ c < S.pdxData.numClusters, S.FilterCounts c (filters c)) (H : Type) [Heap H K]
    {result : List Nat}
    (hresult : result = (buildResultSetFromHeap (K := K) k ((S.setNProbe nProbe).visitClusters
      context.std k (S.pdxData.quantization.prepareQuery ((S.setNProbe nProbe).globalQuery id
        context.sqrt context.memory queryEmbedding)) skip filters
      ((S.setNProbe nProbe).visitedClusters context.std ((S.setNProbe nProbe).globalQuery id
        context.sqrt context.memory queryEmbedding))
      (PriorityQueue.empty : H) context.arrays)).map KNNCandidate.index) :
    w.FindsNearest context queryEmbedding nProbe distance k selected result ↔
      w.CutsHarmlessly context queryEmbedding nProbe distance k selected := by
  obtain ⟨S', hS', hsame, hrows⟩ := h.exists_rowsInSlots
  obtain rfl := Option.some.inj (hS.symm.trans hS')
  have hf32 : S.pdxData.quantization = Quantization.f32 :=
    congrArg IndexPDXIVF.quantization hsame.pdxData_eq
  have hquery :
      (S.setNProbe nProbe).globalQuery id context.sqrt context.memory queryEmbedding = query :=
    hsearches.globalQuery_eq S hS
  have hprepared : S.pdxData.quantization.prepareQuery query = query := by rw [hf32]; rfl
  rw [hquery, hprepared, ← Searcher.visitClusters_withQuery _ context.std k query] at hresult
  have hprobing : RowsInSlots buffer.count buffer.rowIds
      (rowOfSlot ctx w.numClusters buffer.rowIds buffer.embeddings buffer.count)
      w.rowIdClusterMapping ((S.setNProbe nProbe).withQuery query) := hrows.of_sameIndex ⟨rfl, rfl⟩
  have hholds : (S.withQuery query).HoldsRows _ distance := h.holdsRows hdistance hS
  have hlt := (S.setNProbe nProbe).visitedClusters_lt context.std query
  have hiff := hprobing.visitClusters_nearest_iff hf32 (hsearches.numDimensions_eq S hS)
    (hsearches.lossless S hS) hholds context.std hk hselects hnodup
    (fun r hr => by
      obtain ⟨e, he, rfl⟩ := List.mem_map.mp (hindexed r hr)
      exact ⟨e, List.mem_range.mp he, rfl⟩) hlt32 ((S.setNProbe nProbe).nodup_visitedClusters _ _) hlt
    (fun c hc hc' => List.map_eq_nil_iff.mpr (hskip c (hlt c hc) hc'))
    (fun c hc => hcounts c (hlt c hc)) context.arrays H hresult
  have hclusters : w.visitedClusters context queryEmbedding nProbe =
      (S.setNProbe nProbe).visitedClusters context.std query := by
    rw [visitedClusters, hS, Option.toList_some, List.flatMap_singleton, hquery]
  unfold FindsNearest CutsHarmlessly
  rw [hclusters, ← hiff]
  simp only [funext (isVisited_eq hS context queryEmbedding nProbe), hquery]

/-- `Search` returns the nearest rows of the visited clusters, in order, exactly when the cut is
harmless. -/
theorem SetUpWith.search_nearest_iff (H : Type) [Heap H K]
    (h : w.SetUpWith ctx quantizationF32 buffer)
    (hsearches : w.SearchesWith context queryEmbedding query)
    (hdistance : ∀ e < buffer.count, distance (buffer.rowIds e) =
      ∑ d ∈ Finset.range w.numDimensions, (query d - buffer.embeddings (e * w.numDimensions + d)) ^ 2)
    (hlt : ∀ r ∈ CreateIndex.bufferedRowIds buffer, r < 2 ^ 32) {limit : Nat} (hk : 0 < limit)
    (nProbe : Nat) {result : List Nat}
    (hresult : w.search H context queryEmbedding limit nProbe = some result) :
    w.FindsNearest context queryEmbedding nProbe distance limit (CreateIndex.bufferedRowIds buffer)
        result ↔
      w.CutsHarmlessly context queryEmbedding nProbe distance limit
        (CreateIndex.bufferedRowIds buffer) := by
  obtain ⟨S, hS, -, hrows⟩ := h.exists_rowsInSlots
  rw [PDXearchWrapperGlobal.search, hS, Option.map_some, Option.some.injEq] at hresult
  refine h.visitClusters_nearest_iff hsearches hdistance hk nProbe hS
    (hrows.selects_none fun e he => List.mem_map_of_mem (List.mem_range.mpr he)) h.nodup_rowIds
    (fun _ hr => hr) hlt (fun c => (S.pdxData.cluster c).numEmbeddings = 0)
    (fun c _ hskip => ?_) (fun c _ => ?_) H hresult.symm
  · rw [DistanceMeasure.selectedSlots, of_decide_eq_true hskip, List.range_zero, List.filter_nil]
  · rintro selection ⟨⟩

/-- `FilteredSearch` returns the nearest of the passing rows in the visited clusters, in order, exactly
when the cut is harmless. -/
theorem SetUpWith.filteredSearch_nearest_iff (H : Type) [Heap H K]
    (h : w.SetUpWith ctx quantizationF32 buffer)
    (hsearches : w.SearchesWith context queryEmbedding query)
    (hdistance : ∀ e < buffer.count, distance (buffer.rowIds e) =
      ∑ d ∈ Finset.range w.numDimensions, (query d - buffer.embeddings (e * w.numDimensions + d)) ^ 2)
    {passing : List Nat} (hnodup : passing.Nodup)
    (hindexed : ∀ r ∈ passing, r ∈ CreateIndex.bufferedRowIds buffer)
    (hlt : ∀ r ∈ passing, r < 2 ^ 32) {limit : Nat} (hk : 0 < limit) (nProbe : Nat)
    {rowIdVectors : List (DataVector Nat × Nat)} (hperm : (emittedRowIds rowIdVectors).Perm passing)
    {result : List Nat}
    (hresult : w.filteredSearch H context queryEmbedding limit nProbe rowIdVectors = some result) :
    w.FindsNearest context queryEmbedding nProbe distance limit passing result ↔
      w.CutsHarmlessly context queryEmbedding nProbe distance limit passing := by
  obtain ⟨S, hS, -, hrows⟩ := h.exists_rowsInSlots
  have hindexed' : ∀ r ∈ passing, ∃ e < buffer.count, buffer.rowIds e = r := fun r hr => by
    obtain ⟨e, he, rfl⟩ := List.mem_map.mp (hindexed r hr)
    exact ⟨e, List.mem_range.mp he, rfl⟩
  have hcounts := hrows.counts_of_indexed w.numClusters hnodup hindexed'
  rw [PDXearchWrapperGlobal.filteredSearch, hS, Option.map_some, Option.some.injEq,
    createPredicateEvaluator_eq, evaluatorOf_perm (hperm.map _)] at hresult
  refine h.visitClusters_nearest_iff hsearches hdistance hk nProbe hS
    (hrows.selects_evaluatorOf hindexed' w.numClusters) hnodup hindexed hlt
    (fun c => (S.selection (evaluatorOf S.clusterOffsets w.numClusters
      (passing.map w.rowIdClusterMapping)) c).passingTuples = 0 ∨
        (S.pdxData.cluster c).numEmbeddings = 0) (fun c hc hskip => ?_) (fun c hc => ?_) H hresult.symm
  · rcases of_decide_eq_true hskip with hzero | hempty
    · have hnone := hcounts c hc
      rw [hzero] at hnone
      exact List.length_eq_zero_iff.mp hnone.symm
    · rw [DistanceMeasure.selectedSlots, hempty, List.range_zero, List.filter_nil]
  · rintro selection hselection
    obtain rfl := Option.mem_some_iff.mp hselection
    exact hcounts c hc

end PDXearchWrapperGlobal

end PDXearch
