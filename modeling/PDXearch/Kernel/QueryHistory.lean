import PDXearch.Kernel.Locality
import PDXearch.Kernel.Search

/-!
# Queries on a reused searcher

A row group keeps its searcher from one query to the next, so that a query begins in the state that
the query before it left. `InitializeSearch` writes every field that a search reads, of the buffer
for the quantized query the dimensions that the distance computers read. Hence the calls of a query
are the same whatever was left and whatever the arrays held that `Search` and `FilteredSearch`
allocate.
-/

namespace PDXearch

open Lib ExactFloat Client

/-- The fields of a searcher that a query writes. `bestK` and `bestKMutex` point to the heap and to its
mutex. -/
structure QueryState (E : Type) where
  clusterIndicesInAccessOrder : Nat → Nat
  clusterIndicesInAccessOrderOffset : Nat
  k : Nat
  preparedQuery : Nat → E
  predicateEvaluator : Option PredicateEvaluator
  bestK : Option Nat
  bestKMutex : Option Nat
  quantizedQueryBuf : Nat → E

namespace Searcher

variable {K E D : Type}

/-- The searcher in the given state. -/
def inState (S : Searcher K E D) (state : QueryState E) : Searcher K E D :=
  { S with
    clusterIndicesInAccessOrder :=
      (List.range S.pdxData.numClusters).map state.clusterIndicesInAccessOrder
    clusterIndicesInAccessOrderOffset := state.clusterIndicesInAccessOrderOffset
    k := state.k
    preparedQuery := state.preparedQuery
    predicateEvaluator := state.predicateEvaluator }

variable [Field K] [LinearOrder K]

/-- `GetClustersAccessOrderIVF` after its first loop: `std::iota` over the array, and the sort. -/
def orderClusters (std : StdSort) (distancesToCentroids : Nat → ExactFloat K)
    (numClusters nprobe : Nat) (clustersIndices : Nat → Nat) : List Nat :=
  let clustersIndices := (List.range numClusters).map (fill numClusters id clustersIndices)
  if numClusters ≤ nprobe then std.sort distancesToCentroids clustersIndices
  else std.partialSort distancesToCentroids nprobe clustersIndices

theorem orderClusters_eq (std : StdSort) (query : Nat → K) (data : IndexPDXIVF K E D)
    (nprobe : Nat) (clustersIndices : Nat → Nat) :
    orderClusters std (fun clusterIdx => horizontalF32 query
        (fun d => data.centroids (clusterIdx * data.numDimensions + d)) data.numDimensions)
      data.numClusters nprobe clustersIndices =
      getClustersAccessOrderIVF std query data nprobe := by
  unfold orderClusters getClustersAccessOrderIVF
  rw [map_fill, List.map_id]

omit [Field K] in
theorem orderClusters_congr {std : StdSort} (hstd : std.ComparesOnlySorted)
    {distances distances' : Nat → ExactFloat K} {numClusters : Nat}
    (h : ∀ c < numClusters, distances c = distances' c) (nprobe : Nat)
    (clustersIndices : Nat → Nat) :
    orderClusters std distances numClusters nprobe clustersIndices =
      orderClusters std distances' numClusters nprobe clustersIndices := by
  unfold orderClusters
  rw [map_fill, List.map_id]
  split
  · exact hstd.sort_congr fun c hc => h c (List.mem_range.mp hc)
  · exact hstd.partialSort_congr fun c hc => h c (List.mem_range.mp hc)

/-- `InitializeSearch` in the state that is left. Only if the type of the embeddings `quantizes` is the
query copied to the searcher's own buffer. -/
def initializeSearchIn (S : Searcher K E D) (quantizes : Bool) (std : StdSort)
    (preprocessedQuery : Nat → K) (k heap heapMutex : Nat)
    (predicateEvaluator : Option PredicateEvaluator) (state : QueryState E) : QueryState E :=
  let order := orderClusters std (fun clusterIdx => horizontalF32 preprocessedQuery
      (fun d => S.pdxData.centroids (clusterIdx * S.pdxData.numDimensions + d))
        S.pdxData.numDimensions)
    S.pdxData.numClusters S.pdxData.numClusters state.clusterIndicesInAccessOrder
  let quantizedQueryBuf :=
    if quantizes then fill S.pdxData.numDimensions
      (S.pdxData.quantization.prepareQuery preprocessedQuery) state.quantizedQueryBuf
    else state.quantizedQueryBuf
  { clusterIndicesInAccessOrder := fun i => order.getD i (state.clusterIndicesInAccessOrder i)
    clusterIndicesInAccessOrderOffset := 0
    k := k
    preparedQuery :=
      if quantizes then quantizedQueryBuf
      else S.pdxData.quantization.prepareQuery preprocessedQuery
    predicateEvaluator := predicateEvaluator
    bestK := some heap
    bestKMutex := some heapMutex
    quantizedQueryBuf := quantizedQueryBuf }

end Searcher

/-- A call of a search method. -/
inductive SearchCall
  | search (numClustersToProbe : Nat)
  | filteredSearch (numClustersToTryToProbe : Nat)

namespace Searcher

variable {K E D : Type} [Field K] [LinearOrder K] [LinearOrder D] [Zero E]

/-- The calls in sequence; `arrays` holds what the allocator returns, call by call. -/
def runCalls : List SearchCall → (Nat → ProbeState D) → Searcher K E D →
    SearchProgram K (Searcher K E D)
  | [], _, S => .done S
  | .search n :: calls, arrays, S =>
    S.search n (arrays 0) >>= fun _ => runCalls calls (fun i => arrays (i + 1)) S
  | .filteredSearch n :: calls, arrays, S =>
    S.filteredSearch n (arrays 0) >>= runCalls calls fun i => arrays (i + 1)

/-- A query on a searcher that is in the given state: `InitializeSearch` and a sequence of calls. The
heaps of the process after it; without a heap the calls are errors. -/
def runQuery {H : Type} [Heap H K] (S : Searcher K E D) (quantizes : Bool) (std : StdSort)
    (preprocessedQuery : Nat → K) (k heap heapMutex : Nat)
    (predicateEvaluator : Option PredicateEvaluator) (calls : List SearchCall)
    (arrays : Nat → ProbeState D) (state : QueryState E) (heaps : Nat → H) : Nat → H :=
  let state := S.initializeSearchIn quantizes std preprocessedQuery k heap heapMutex
    predicateEvaluator state
  match state.bestK with
  | none => heaps
  | some bestK => Function.update heaps bestK
      ((runCalls calls arrays (S.inState state)).exec (queueObj state.k) (heaps bestK)).2.1

/-! ## What the calls depend on -/

variable {S S' : Searcher K E D}

omit [LinearOrder K] in
theorem runCalls_sim (hlocal : S.pdxData.quantization.Local)
    (hthreshold : 0 ≤ S.selectivityThreshold) (h : SearchesAlike S S') (calls : List SearchCall)
    (arrays arrays' : Nat → ProbeState D) :
    Sim SearchesAlike (runCalls calls arrays S) (runCalls calls arrays' S') := by
  induction calls generalizing S S' arrays arrays' with
  | nil => exact .done h
  | cons call calls ih =>
    cases call with
    | search n =>
      unfold runCalls
      rw [search_eq hlocal hthreshold h n (arrays 0) (arrays' 0)]
      exact (Sim.refl (R := Eq) (fun _ => rfl) _).bind fun _ _ _ => ih hlocal hthreshold h _ _
    | filteredSearch n =>
      unfold runCalls
      refine Sim.bind (filteredSearch_sim hlocal hthreshold h n (arrays 0) (arrays' 0)) ?_
      intro S₁ S₂ ⟨halike, hdata, hkept⟩
      exact ih (hdata ▸ hlocal) (hkept ▸ hthreshold) halike _ _

omit [LinearOrder D] [Zero E] in
/-- Whatever the state, `InitializeSearch` sets the searcher up for the query. -/
theorem searchesAlike_initializeSearchIn (S : Searcher K E D) (quantizes : Bool) (std : StdSort)
    (preprocessedQuery : Nat → K) (k heap heapMutex : Nat)
    (predicateEvaluator : Option PredicateEvaluator) (state : QueryState E) :
    SearchesAlike (S.initializeSearch std preprocessedQuery k predicateEvaluator)
      (S.inState (S.initializeSearchIn quantizes std preprocessedQuery k heap heapMutex
        predicateEvaluator state)) := by
  refine ⟨⟨rfl, rfl, rfl, ?_⟩, rfl, ?_, rfl, rfl⟩
  · intro d hd
    cases quantizes with
    | false => rfl
    | true =>
      have hlt : d < S.pdxData.numDimensions := hd
      show S.pdxData.quantization.prepareQuery preprocessedQuery d =
        fill S.pdxData.numDimensions (S.pdxData.quantization.prepareQuery preprocessedQuery)
          state.quantizedQueryBuf d
      rw [fill_apply, if_pos hlt]
  · set order := getClustersAccessOrderIVF std preprocessedQuery S.pdxData S.pdxData.numClusters
      with horder
    have hlength : order.length = S.pdxData.numClusters := by
      rw [(getClustersAccessOrderIVF_perm std preprocessedQuery S.pdxData
        S.pdxData.numClusters).length_eq, List.length_range]
    show (List.range S.pdxData.numClusters).map _ = order
    unfold initializeSearchIn
    simp only [orderClusters_eq, ← horder]
    rw [← hlength]
    exact map_getD_range order state.clusterIndicesInAccessOrder

/-- A query leaves its heap as it would on a new searcher with arrays of its own. -/
theorem runQuery_heap {H : Type} [Heap H K] (hlocal : S.pdxData.quantization.Local)
    (hthreshold : 0 ≤ S.selectivityThreshold) (quantizes : Bool) (std : StdSort)
    (preprocessedQuery : Nat → K) (k heap heapMutex : Nat)
    (predicateEvaluator : Option PredicateEvaluator) (calls : List SearchCall)
    (arrays arrays' : Nat → ProbeState D) (state : QueryState E) (heaps : Nat → H) :
    S.runQuery quantizes std preprocessedQuery k heap heapMutex predicateEvaluator calls arrays state
        heaps heap =
      ((runCalls calls arrays' (S.initializeSearch std preprocessedQuery k predicateEvaluator)).exec
        (queueObj k) (heaps heap)).2.1 := by
  have halike := S.searchesAlike_initializeSearchIn quantizes std preprocessedQuery k heap heapMutex
    predicateEvaluator state
  have hsim := runCalls_sim (S := S.initializeSearch std preprocessedQuery k predicateEvaluator)
    hlocal hthreshold halike calls arrays' arrays
  have hexec := (hsim.exec (queueObj k) (heaps heap)).2.1
  unfold runQuery
  exact (Function.update_self _ _ _).trans hexec.symm

/-! ## History -/

/-- Two searchers of an index, however earlier queries left them: the same query with the same calls
on heaps with the same contents leaves heaps with the same contents. -/
def HistoryIrrelevant (H : Type) [Heap H K] (quantizes : Bool) (index : IndexPDXIVF K E D) : Prop :=
  ∀ (pruner : ADSamplingPruner K) (left left' : QueryState E) (arrays arrays' : Nat → ProbeState D)
    (std : StdSort) (preprocessedQuery : Nat → K) (k heap heap' heapMutex heapMutex' : Nat)
    (predicateEvaluator : Option PredicateEvaluator) (calls : List SearchCall)
    (heaps heaps' : Nat → H), heaps heap = heaps' heap' →
    (Searcher.new pruner index).runQuery quantizes std preprocessedQuery k heap heapMutex
        predicateEvaluator calls arrays left heaps heap =
      (Searcher.new pruner index).runQuery quantizes std preprocessedQuery k heap' heapMutex'
        predicateEvaluator calls arrays' left' heaps' heap'

theorem historyIrrelevant_of_local (H : Type) [Heap H K] (quantizes : Bool)
    {index : IndexPDXIVF K E D} (hlocal : index.quantization.Local) :
    HistoryIrrelevant H quantizes index := by
  intro pruner left left' arrays arrays' std query k heap heap' mutex mutex' evaluator calls heaps
    heaps' hheaps
  have hthreshold : 0 ≤ (Searcher.new pruner index).selectivityThreshold := by
    show (0 : Rat) ≤ 4 / 5
    norm_num
  rw [runQuery_heap hlocal hthreshold quantizes std query k heap mutex evaluator calls arrays arrays,
    runQuery_heap hlocal hthreshold quantizes std query k heap' mutex' evaluator calls arrays' arrays,
    hheaps]

/-- Query history does not leak into later queries, for F32 and for U8. -/
theorem historyIrrelevant {K H : Type} [Field K] [LinearOrder K] [FloorRing K] [Heap H K] :
    (∀ index : IndexPDXIVF K K (ExactFloat K), index.quantization = Quantization.f32 →
      HistoryIrrelevant H false index) ∧
    ∀ (index : IndexPDXIVF K UInt8 Nat) (maxValue : UInt8) (params : ScalarQuantizationParams K),
      index.quantization = Quantization.u8 maxValue params → HistoryIrrelevant H true index := by
  constructor
  · intro index hindex
    exact historyIrrelevant_of_local H false (hindex ▸ Quantization.f32_local)
  · intro index maxValue params hindex
    exact historyIrrelevant_of_local H true (hindex ▸ Quantization.u8_local maxValue params)

/-- One cluster with the vectors `1` and `-1`. -/
def unitVectors : IndexPDXIVF Rat Rat (ExactFloat Rat) where
  numDimensions := 1
  totalNumEmbeddings := 2
  numClusters := 1
  clusters := [⟨2, id, fun i => [1, -1].getD i 0⟩]
  isNormalized := true
  centroids := fun _ => 0
  quantization := Quantization.f32

/-- A pruner for one dimension. -/
def unitPruner : ADSamplingPruner Rat := ⟨1, 0, fun _ => 1, fun _ => 1⟩

/-- Arrays that hold `x`. -/
def constantArrays (x : Rat) : ProbeState (ExactFloat Rat) := .const (ofReal x)

/-- The state after a query for `x`. -/
def stateAfter (x : Rat) : QueryState Rat :=
  ⟨fun _ => 0, 1, 1, fun _ => x, none, some 7, some 7, fun _ => x⟩

theorem historyIrrelevant_unitVectors :
    (Searcher.new unitPruner unitVectors).runQuery false StdSort.insertion (fun _ => 1) 1 0 0 none
        [.search 1] (fun _ => constantArrays 2) (stateAfter 2)
        (fun _ => (initialHeap (SortedQueue (KNNCandidate.distance (K := Rat))))) 0 =
      (Searcher.new unitPruner unitVectors).runQuery false StdSort.insertion (fun _ => 1) 1 1 1 none
        [.search 1] (fun _ => constantArrays 3) (stateAfter 3)
        (fun _ => (initialHeap (SortedQueue (KNNCandidate.distance (K := Rat))))) 1 :=
  historyIrrelevant.1 unitVectors rfl unitPruner (stateAfter 2) (stateAfter 3)
    (fun _ => constantArrays 2) (fun _ => constantArrays 3) StdSort.insertion (fun _ => 1) 1 0 1 0 1
    none [.search 1] (fun _ => initialHeap _) (fun _ => initialHeap _) rfl

end Searcher

end PDXearch
