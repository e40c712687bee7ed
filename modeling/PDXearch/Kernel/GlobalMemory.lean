import PDXearch.Kernel.QueryHistory
import PDXearch.Kernel.GlobalSearch

/-!
# What a global search reads

`SearchGlobal` and `FilteredSearchGlobal` allocate every buffer anew and none of them initialised: the
normalised query, the rotated query, the quantized query, the cluster order with its distances, the
array that `Start` sorts, the distances and the positions. All are written before they are read, but
for one: if the squares of the query add up to zero, `NormalizeQuery` writes nothing. So the result is
determined by the inputs unless such a query meets a normalised index.
-/

namespace PDXearch

open Lib ExactFloat Client

/-! ## Visits -/

namespace Searcher

section Visits

variable {K E D : Type} {S : Searcher K E D} {query query' data : Nat → E} {n : Nat}

/-- The loop over the horizontal blocks reads the query's dimensions only. -/
theorem addHorizontalBlocks_eqOn (hlocal : S.pdxData.quantization.Local)
    (hquery : ∀ d < S.pdxData.numDimensions, query d = query' d) {vectors : List Nat}
    {distances distances' : Nat → D} (h : Set.EqOn distances distances' (Set.Iio n)) :
    Set.EqOn (S.addHorizontalBlocks query data n vectors distances)
      (S.addHorizontalBlocks query' data n vectors distances') (Set.Iio n) := by
  have hsplit := S.pdxData.vertical_add_horizontal
  have hdvd := S.pdxData.hDimSize_dvd
  unfold addHorizontalBlocks
  rw [forRange_of_dvd hdvd (by decide)]
  refine eqOn_foldl h fun b hb d d' hd => eqOn_foldl hd fun i _ e e' he => eqOn_update he fun hi => ?_
  obtain ⟨t, ht, rfl⟩ := List.mem_map.mp hb
  have hlt := List.mem_range.mp ht
  have hblock : hDimSize * t + hDimSize ≤ S.pdxData.numHorizontalDimensions := by
    have hmul := Nat.mul_le_mul_left hDimSize (Nat.succ_le_of_lt hlt)
    rwa [Nat.mul_div_cancel' hdvd] at hmul
  rw [he hi]
  congr 1
  exact hlocal.horizontal fun d hd => hquery _ (by omega)

variable [LinearOrder K] [LinearOrder D] {H : Type} [Heap H K] {std : StdSort}

/-- What is inserted depends on the cluster's distances only. -/
theorem insertNearest_congr (hstd : std.ComparesOnlySorted) {distances distances' : Nat → D}
    (h : Set.EqOn distances distances' (Set.Iio n)) (m : Nat) (vectorIndices : Nat → Nat) (heap : H) :
    S.insertNearest std n m vectorIndices distances heap =
      S.insertNearest std n m vectorIndices distances' heap := by
  unfold insertNearest
  have hsort : std.partialSort distances m (List.range n) =
      std.partialSort distances' m (List.range n) :=
    hstd.partialSort_congr fun i hi => h (List.mem_range.mp hi)
  rw [hsort]
  refine List.foldl_ext _ _ _ fun heap i hi => ?_
  have hmem := (std.partialSort_perm distances' m (List.range n)).mem_iff.mp (List.mem_of_mem_take hi)
  rw [h (List.mem_range.mp hmem)]

variable [Field K] [Zero E] (hlocal : S.pdxData.quantization.Local)
  (hquery : ∀ d < S.pdxData.numDimensions, query d = query' d) (hstd : std.ComparesOnlySorted)

include hlocal hquery in
omit [LinearOrder K] [LinearOrder D] [Field K] [Zero E] in
theorem vertical_eqOn {skip : Bool} {m m' : Nat} {distances distances' : Nat → D}
    {positions positions' : Nat → Nat} (hm : m = m')
    (hvisited : visited skip positions m = visited skip positions' m')
    (h : Set.EqOn distances distances' (Set.Iio n)) :
    Set.EqOn (S.pdxData.quantization.vertical skip query data m n 0 S.pdxData.numVerticalDimensions
        distances positions)
      (S.pdxData.quantization.vertical skip query' data m' n 0 S.pdxData.numVerticalDimensions
        distances' positions') (Set.Iio n) := by
  subst hm
  have hsplit := S.pdxData.vertical_add_horizontal
  exact hlocal.vertical (fun d _ hd => hquery d (by omega)) hvisited h

omit [LinearOrder D] in
theorem resetPruningDistances_eqOn {K E D : Type} (Q : Quantization K E D) (n : Nat)
    (distances distances' : Nat → D) :
    Set.EqOn (resetPruningDistances Q n distances) (resetPruningDistances Q n distances')
      (Set.Iio n) := by
  intro i hi
  have hlt : i < n := hi
  rw [resetPruningDistances_apply, resetPruningDistances_apply, if_pos hlt, if_pos hlt]

theorem maskDistancesWithSelectionVector_eqOn {K E D : Type} (Q : Quantization K E D)
    (selectionVector : Nat → Bool) {n : Nat} {distances distances' : Nat → D}
    (h : Set.EqOn distances distances' (Set.Iio n)) :
    Set.EqOn (maskDistancesWithSelectionVector Q n distances selectionVector)
      (maskDistancesWithSelectionVector Q n distances' selectionVector) (Set.Iio n) := by
  intro i hi
  rw [maskDistancesWithSelectionVector_apply, maskDistancesWithSelectionVector_apply, h hi]

include hlocal hquery hstd in
omit [Field K] [Zero E] in
theorem start_congr (k : Nat) (vectorIndices : Nat → Nat) (s s' : ProbeState D) (heap : H) :
    (S.start query data std n k vectorIndices s heap).1 =
      (S.start query' data std n k vectorIndices s' heap).1 := by
  unfold start
  refine insertNearest_congr hstd (addHorizontalBlocks_eqOn hlocal hquery ?_) _ _ _
  refine vertical_eqOn hlocal hquery rfl ?_ (resetPruningDistances_eqOn _ _ _ _)
  simp only [visited_false]

include hlocal hquery hstd in
omit [Field K] [Zero E] in
theorem filteredStart_congr (k : Nat) (vectorIndices : Nat → Nat) (selection : Selection)
    (s s' : ProbeState D) (heap : H) :
    (S.filteredStart query data std n k vectorIndices selection s heap).1 =
      (S.filteredStart query' data std n k vectorIndices selection s' heap).1 := by
  have hkept := initPositionsArrayFromSelectionVector_kept n s.pruningPositions
    selection.selectionVector
  have hkept' := initPositionsArrayFromSelectionVector_kept n s'.pruningPositions
    selection.selectionVector
  set kept := initPositionsArrayFromSelectionVector n s.pruningPositions selection.selectionVector
  set kept' := initPositionsArrayFromSelectionVector n s'.pruningPositions selection.selectionVector
  have hcount : kept.2 = kept'.2 := by
    have hlength := congrArg List.length (hkept.trans hkept'.symm)
    simpa using hlength
  have hblocks : Set.EqOn
      (S.addHorizontalBlocks query data n ((List.range kept.2).map kept.1)
        (resetPruningDistances S.pdxData.quantization n s.pruningDistances))
      (S.addHorizontalBlocks query' data n ((List.range kept'.2).map kept'.1)
        (resetPruningDistances S.pdxData.quantization n s'.pruningDistances)) (Set.Iio n) := by
    rw [hkept, hkept']
    exact addHorizontalBlocks_eqOn hlocal hquery (resetPruningDistances_eqOn _ _ _ _)
  have hpositions : visited true kept.1 kept.2 = visited true kept'.1 kept'.2 := by
    rw [visited_true, visited_true]
    exact hkept.trans hkept'.symm
  unfold filteredStart
  refine insertNearest_congr hstd (maskDistancesWithSelectionVector_eqOn _ _ ?_) _ _ _
  split
  · refine vertical_eqOn hlocal hquery rfl ?_ hblocks
    simp only [visited_false]
  · exact vertical_eqOn hlocal hquery hcount hpositions hblocks

include hlocal hquery hstd in
/-- One visit: the heap depends on the query's dimensions and on nothing that the arrays held. -/
theorem visitCluster_congr (hthreshold : 0 ≤ S.selectivityThreshold) (k clusterIdx : Nat)
    (filter : Option Selection) (heap : H) (s s' : ProbeState D) :
    (S.visitCluster std k query clusterIdx filter heap s).1 =
      (S.visitCluster std k query' clusterIdx filter heap s').1 := by
  unfold visitCluster
  simp only
  split
  · cases filter with
    | none => exact start_congr hlocal hquery hstd k _ _ _ heap
    | some selection => exact filteredStart_congr hlocal hquery hstd k _ selection _ _ heap
  · have hsim : Sim (Alike (S.pdxData.cluster clusterIdx).numEmbeddings)
        (S.probe query (S.pdxData.cluster clusterIdx).data
          (S.pdxData.cluster clusterIdx).numEmbeddings filter (S.startCluster s))
        (S.probe query' (S.pdxData.cluster clusterIdx).data
          (S.pdxData.cluster clusterIdx).numEmbeddings filter (S.startCluster s')) :=
      probe_sim hlocal hquery (.refl filter) hthreshold rfl rfl
    have halike := hsim.eval fun idx => S.getPruningThreshold (PriorityQueue.topKey heap) idx
    simp only
    rw [halike.nVectorsNotPruned]
    unfold mergeIntoHeap
    rw [mergeCandidates_congr halike]

include hlocal hquery hstd in
/-- Any number of visits. -/
theorem visitClusters_congr (hthreshold : 0 ≤ S.selectivityThreshold) (k : Nat) (skip : Nat → Bool)
    (filter : Nat → Option Selection) (clusters : List Nat) (heap : H) (s s' : ProbeState D) :
    S.visitClusters std k query skip filter clusters heap s =
      S.visitClusters std k query' skip filter clusters heap s' := by
  induction clusters generalizing heap s s' with
  | nil => rfl
  | cons c clusters ih =>
    unfold visitClusters
    split
    · exact ih heap s s'
    · simp only
      rw [visitCluster_congr hlocal hquery hstd hthreshold k c (filter c) heap s s']
      exact ih _ _ _

end Visits

end Searcher

/-! ## The buffers -/

/-- What the buffers hold that a global search obtains with `new[]`; `Start` allocates `indicesSorted`
for the cluster that it scans. -/
structure GlobalMemory (K E D : Type) where
  query : Nat → K
  normalizedQuery : Nat → K
  distancesToCentroids : Nat → ExactFloat K
  clusterOrder : Nat → Nat
  quantizedQuery : Nat → E
  arrays : ProbeState D
  indicesSorted : Nat → Nat → Nat

namespace Searcher

section InPlace

variable {K E D : Type} [LinearOrder K] [LinearOrder D] {H : Type} [Heap H K] (S : Searcher K E D)

/-- `insertNearest` with its array as it is allocated. -/
def insertNearestIn (std : StdSort) (nVectors maxPossibleK : Nat)
    (vectorIndices indicesSorted : Nat → Nat) (pruningDistances : Nat → D) (heap : H) : H :=
  let indicesSorted := (List.range nVectors).map (fill nVectors id indicesSorted)
  ((std.partialSort pruningDistances maxPossibleK indicesSorted).take maxPossibleK).foldl
    (fun heap index => PriorityQueue.push
      ⟨vectorIndices index, S.pdxData.quantization.floatOfDistance (pruningDistances index)⟩ heap)
    heap

/-- `Start`: its distances, and what it inserts. -/
def startIn (query data : Nat → E) (std : StdSort) (nVectors k : Nat)
    (vectorIndices indicesSorted : Nat → Nat) (s : ProbeState D) (heap : H) : H × ProbeState D :=
  let s := (S.start query data std nVectors k vectorIndices s heap).2
  let maxPossibleK := min (k - PriorityQueue.size heap) nVectors
  (S.insertNearestIn std nVectors maxPossibleK vectorIndices indicesSorted s.pruningDistances heap, s)

/-- `FilteredStart`, likewise. -/
def filteredStartIn (query data : Nat → E) (std : StdSort) (nVectors k : Nat)
    (vectorIndices indicesSorted : Nat → Nat) (selection : Selection) (s : ProbeState D) (heap : H) :
    H × ProbeState D :=
  let s := (S.filteredStart query data std nVectors k vectorIndices selection s heap).2
  let maxPossibleK := min (k - PriorityQueue.size heap) selection.passingTuples
  (S.insertNearestIn std nVectors maxPossibleK vectorIndices indicesSorted s.pruningDistances heap, s)

theorem insertNearestIn_eq (std : StdSort) (nVectors maxPossibleK : Nat)
    (vectorIndices indicesSorted : Nat → Nat) (pruningDistances : Nat → D) (heap : H) :
    S.insertNearestIn std nVectors maxPossibleK vectorIndices indicesSorted pruningDistances heap =
      S.insertNearest std nVectors maxPossibleK vectorIndices pruningDistances heap := by
  unfold insertNearestIn insertNearest
  rw [map_fill, List.map_id]

theorem startIn_eq (query data : Nat → E) (std : StdSort) (nVectors k : Nat)
    (vectorIndices indicesSorted : Nat → Nat) (s : ProbeState D) (heap : H) :
    S.startIn query data std nVectors k vectorIndices indicesSorted s heap =
      S.start query data std nVectors k vectorIndices s heap := by
  unfold startIn
  simp only [insertNearestIn_eq]
  rfl

theorem filteredStartIn_eq (query data : Nat → E) (std : StdSort) (nVectors k : Nat)
    (vectorIndices indicesSorted : Nat → Nat) (selection : Selection) (s : ProbeState D) (heap : H) :
    S.filteredStartIn query data std nVectors k vectorIndices indicesSorted selection s heap =
      S.filteredStart query data std nVectors k vectorIndices selection s heap := by
  unfold filteredStartIn
  simp only [insertNearestIn_eq]
  rfl

variable [Field K] [Zero E]

/-- The body of the loop of `SearchGlobal` and `FilteredSearchGlobal`. -/
def visitClusterIn (std : StdSort) (k : Nat) (query : Nat → E) (clusterIdx : Nat)
    (filter : Option Selection) (indicesSorted : Nat → Nat) (heap : H) (s : ProbeState D) :
    H × ProbeState D :=
  let cluster := S.pdxData.cluster clusterIdx
  if PriorityQueue.size heap < k then
    match filter with
    | none =>
      S.startIn query cluster.data std cluster.numEmbeddings k cluster.indices indicesSorted
        (S.startCluster s) heap
    | some selection =>
      S.filteredStartIn query cluster.data std cluster.numEmbeddings k cluster.indices indicesSorted
        selection (S.startCluster s) heap
  else S.visitCluster std k query clusterIdx filter heap s

/-- The loop itself. -/
def visitClustersIn (std : StdSort) (k : Nat) (query : Nat → E) (skip : Nat → Bool)
    (filter : Nat → Option Selection) (indicesSorted : Nat → Nat → Nat) :
    List Nat → H → ProbeState D → H
  | [], heap, _ => heap
  | clusterIdx :: clusters, heap, s =>
    if skip clusterIdx then visitClustersIn std k query skip filter indicesSorted clusters heap s
    else
      let (heap, s) := S.visitClusterIn std k query clusterIdx (filter clusterIdx)
        (indicesSorted clusterIdx) heap s
      visitClustersIn std k query skip filter indicesSorted clusters heap s

theorem visitClusterIn_eq (std : StdSort) (k : Nat) (query : Nat → E) (clusterIdx : Nat)
    (filter : Option Selection) (indicesSorted : Nat → Nat) (heap : H) (s : ProbeState D) :
    S.visitClusterIn std k query clusterIdx filter indicesSorted heap s =
      S.visitCluster std k query clusterIdx filter heap s := by
  unfold visitClusterIn
  by_cases hroom : PriorityQueue.size heap < k
  · rw [if_pos hroom]
    unfold visitCluster
    simp only [if_pos hroom]
    cases filter with
    | none => exact S.startIn_eq _ _ _ _ _ _ _ _ _
    | some selection => exact S.filteredStartIn_eq _ _ _ _ _ _ _ _ _ _
  · rw [if_neg hroom]

theorem visitClustersIn_eq (std : StdSort) (k : Nat) (query : Nat → E) (skip : Nat → Bool)
    (filter : Nat → Option Selection) (indicesSorted : Nat → Nat → Nat) (clusters : List Nat)
    (heap : H) (s : ProbeState D) :
    S.visitClustersIn std k query skip filter indicesSorted clusters heap s =
      S.visitClusters std k query skip filter clusters heap s := by
  induction clusters generalizing heap s with
  | nil => rfl
  | cons c clusters ih =>
    unfold visitClustersIn visitClusters
    split
    · exact ih heap s
    · rw [visitClusterIn_eq]
      exact ih _ _

/-- The rotated query, written to its buffer. -/
def globalQueryIn (fl sqrt : K → K) (memory : GlobalMemory K E D) (rawQuery : Nat → K) : Nat → K :=
  fill S.pruner.numDimensions (S.globalQuery fl sqrt memory.normalizedQuery rawQuery) memory.query

/-- `local_prepared_query`; only if the type of the embeddings `quantizes` is it a copy. -/
def preparedQueryIn (quantizes : Bool) (memory : GlobalMemory K E D) (query : Nat → K) : Nat → E :=
  if quantizes then fill S.pdxData.numDimensions (S.pdxData.quantization.prepareQuery query)
    memory.quantizedQuery
  else S.pdxData.quantization.prepareQuery query

/-- The clusters that a global search visits, in order. -/
def visitedClustersIn (std : StdSort) (memory : GlobalMemory K E D) (query : Nat → K) : List Nat :=
  let distancesToCentroids := fill S.pdxData.numClusters (fun clusterIdx => horizontalF32 query
    (fun d => S.pdxData.centroids (clusterIdx * S.pdxData.numDimensions + d))
      S.pdxData.numDimensions) memory.distancesToCentroids
  (orderClusters std distancesToCentroids S.pdxData.numClusters S.clustersToVisit
    memory.clusterOrder).take S.clustersToVisit

/-- What `SearchGlobal` and `FilteredSearchGlobal` share. -/
def runGlobalIn (H : Type) [Heap H K] (quantizes : Bool) (std : StdSort) (fl sqrt : K → K)
    (memory : GlobalMemory K E D) (rawQuery : Nat → K) (k : Nat) (skip : Nat → Bool)
    (filter : Nat → Option Selection) : List (KNNCandidate K) :=
  let query := S.globalQueryIn fl sqrt memory rawQuery
  buildResultSetFromHeap k (S.visitClustersIn std k (S.preparedQueryIn quantizes memory query) skip
    filter memory.indicesSorted (S.visitedClustersIn std memory query) (PriorityQueue.empty : H)
    memory.arrays)

/-- `SearchGlobal` with its buffers. -/
def searchGlobalIn (H : Type) [Heap H K] (quantizes : Bool) (std : StdSort) (fl sqrt : K → K)
    (memory : GlobalMemory K E D) (rawQuery : Nat → K) (k : Nat) : List (KNNCandidate K) :=
  S.runGlobalIn H quantizes std fl sqrt memory rawQuery k
    (fun c => (S.pdxData.cluster c).numEmbeddings = 0) fun _ => none

/-- `FilteredSearchGlobal` with its buffers. -/
def filteredSearchGlobalIn (H : Type) [Heap H K] (quantizes : Bool) (std : StdSort) (fl sqrt : K → K)
    (memory : GlobalMemory K E D) (rawQuery : Nat → K) (k : Nat) (evaluator : PredicateEvaluator) :
    List (KNNCandidate K) :=
  S.runGlobalIn H quantizes std fl sqrt memory rawQuery k
    (fun c => (S.selection evaluator c).passingTuples = 0 ∨ (S.pdxData.cluster c).numEmbeddings = 0)
    fun c => some (S.selection evaluator c)

variable {S}

omit [LinearOrder D] [Zero E] in
theorem globalQueryIn_apply (hdims : S.pruner.numDimensions = S.pdxData.numDimensions)
    (fl sqrt : K → K) (memory : GlobalMemory K E D) (rawQuery : Nat → K) {d : Nat}
    (hd : d < S.pdxData.numDimensions) :
    S.globalQueryIn fl sqrt memory rawQuery d =
      S.globalQuery fl sqrt memory.normalizedQuery rawQuery d := by
  unfold globalQueryIn
  rw [fill_apply, if_pos (hdims ▸ hd)]

omit [LinearOrder K] [LinearOrder D] [Field K] [Zero E] in
theorem preparedQueryIn_apply (quantizes : Bool) (memory : GlobalMemory K E D) (query : Nat → K)
    {d : Nat} (hd : d < S.pdxData.numDimensions) :
    S.preparedQueryIn quantizes memory query d = S.pdxData.quantization.prepareQuery query d := by
  unfold preparedQueryIn
  cases quantizes with
  | false => rfl
  | true => rw [if_pos rfl, fill_apply, if_pos hd]

omit [LinearOrder D] [Zero E] in
theorem visitedClustersIn_eq {std : StdSort} (hstd : std.ComparesOnlySorted)
    (memory : GlobalMemory K E D) {query query' : Nat → K}
    (hquery : ∀ d < S.pdxData.numDimensions, query d = query' d) :
    S.visitedClustersIn std memory query = S.visitedClusters std query' := by
  unfold visitedClustersIn visitedClusters
  rw [← orderClusters_eq std query' S.pdxData S.clustersToVisit memory.clusterOrder]
  refine congrArg (List.take S.clustersToVisit) (orderClusters_congr hstd (fun c hc => ?_) _ _)
  rw [fill_apply, if_pos hc]
  exact (Quantization.f32_local (K := K)).horizontal hquery

/-- The buffers for the rotated query, for its order of the clusters and for its quantization are
written before they are read, and so are the arrays of the visits. -/
theorem runGlobalIn_eq (hlocal : S.pdxData.quantization.Local)
    (hthreshold : 0 ≤ S.selectivityThreshold)
    (hdims : S.pruner.numDimensions = S.pdxData.numDimensions) {std : StdSort}
    (hstd : std.ComparesOnlySorted) (quantizes : Bool) (fl sqrt : K → K) (memory : GlobalMemory K E D)
    (arrays : ProbeState D) (rawQuery : Nat → K) (k : Nat) (skip : Nat → Bool)
    (filter : Nat → Option Selection) :
    S.runGlobalIn H quantizes std fl sqrt memory rawQuery k skip filter =
      buildResultSetFromHeap k (S.visitClusters std k (S.pdxData.quantization.prepareQuery
          (S.globalQuery fl sqrt memory.normalizedQuery rawQuery)) skip filter
        (S.visitedClusters std (S.globalQuery fl sqrt memory.normalizedQuery rawQuery))
        (PriorityQueue.empty : H) arrays) := by
  unfold runGlobalIn
  simp only
  rw [visitClustersIn_eq, visitedClustersIn_eq hstd memory
    fun d hd => globalQueryIn_apply hdims fl sqrt memory rawQuery hd]
  congr 1
  refine visitClusters_congr hlocal (fun d hd => ?_) hstd hthreshold k skip filter _ _ _ _
  rw [preparedQueryIn_apply quantizes memory _ hd]
  unfold Quantization.prepareQuery
  rw [globalQueryIn_apply hdims fl sqrt memory rawQuery hd]

end InPlace

end Searcher

/-! ## The normalised query -/

section Normalize

variable {K : Type} [Field K] [LinearOrder K]

/-- All of the output is defined by the input, whatever it held. -/
def NormalizeQueryDefines (fl sqrt : K → K) (n : Nat) (src : Nat → K) : Prop :=
  ∀ out out' : Nat → K, ∀ d < n,
    normalizeQuery fl sqrt n src out d = normalizeQuery fl sqrt n src out' d

/-- Whatever the rounding. -/
theorem normalizeQueryDefines_iff (fl sqrt : K → K) (n : Nat) (src : Nat → K) :
    NormalizeQueryDefines fl sqrt n src ↔ ¬ (0 < n ∧ sumOfSquares fl n src = 0) := by
  constructor
  · rintro h ⟨hn, hzero⟩
    have hsame := h (fun _ => 0) (fun _ => 1) 0 hn
    rw [normalizeQuery, normalizeQuery, if_pos hzero, if_pos hzero] at hsame
    exact zero_ne_one hsame
  · intro h out out' d hd
    have hsum : sumOfSquares fl n src ≠ 0 := fun hzero => h ⟨Nat.zero_lt_of_lt hd, hzero⟩
    rw [normalizeQuery, normalizeQuery, if_neg hsum, if_neg hsum, if_pos hd, if_pos hd]

omit [LinearOrder K] in
/-- With exact arithmetic. -/
theorem sumOfSquares_id (n : Nat) (src : Nat → K) :
    sumOfSquares id n src = ∑ i ∈ Finset.range n, src i * src i := by
  refine foldl_range_induction (P := fun t r => r = ∑ i ∈ Finset.range t, src i * src i) rfl ?_
  rintro t r - rfl
  exact (Finset.sum_range_succ _ _).symm

variable [IsStrictOrderedRing K]

/-- Then nothing is written exactly when all dimensions are zero. -/
theorem normalizeQuery_apply (sqrt : K → K) (n : Nat) (src out : Nat → K) (d : Nat) :
    normalizeQuery id sqrt n src out d =
      if (∃ i < n, src i ≠ 0) ∧ d < n then src d / sqrt (∑ i ∈ Finset.range n, src i * src i)
      else out d := by
  unfold normalizeQuery
  simp only [sumOfSquares_id]
  have hzero : ∑ i ∈ Finset.range n, src i * src i = 0 ↔ ∀ i < n, src i = 0 := by
    rw [Finset.sum_eq_zero_iff_of_nonneg fun i _ => mul_self_nonneg (src i)]
    simp
  by_cases hall : ∀ i < n, src i = 0
  · have hnone : ¬ ∃ i < n, src i ≠ 0 := by
      rintro ⟨i, hi, hne⟩
      exact hne (hall i hi)
    rw [if_pos (hzero.mpr hall), if_neg fun h => hnone h.1]
  · have hsome : ∃ i < n, src i ≠ 0 := by
      push Not at hall
      exact hall
    rw [if_neg fun h => hall (hzero.mp h)]
    simp only [hsome, true_and, id]

end Normalize

/-! ## What determines the result -/

namespace Searcher

section Determined

variable {K E D : Type} [Field K] [LinearOrder K] [LinearOrder D] [Zero E]

/-- Whatever the buffers held, both searches return the same result, and the normalised query is
defined by the raw one. -/
def DeterminedByInputs (H : Type) [Heap H K] (S : Searcher K E D) (quantizes : Bool) (std : StdSort)
    (fl sqrt : K → K) (rawQuery : Nat → K) (k : Nat) (evaluator : PredicateEvaluator) : Prop :=
  (∀ memory memory' : GlobalMemory K E D,
    S.searchGlobalIn H quantizes std fl sqrt memory rawQuery k =
      S.searchGlobalIn H quantizes std fl sqrt memory' rawQuery k ∧
    S.filteredSearchGlobalIn H quantizes std fl sqrt memory rawQuery k evaluator =
      S.filteredSearchGlobalIn H quantizes std fl sqrt memory' rawQuery k evaluator) ∧
  (S.pdxData.isNormalized → NormalizeQueryDefines fl sqrt S.pdxData.numDimensions rawQuery)

/-- A query whose squares add up to zero meets an index of normalised vectors. -/
def ZeroSumNormalized (fl : K → K) (index : IndexPDXIVF K E D) (rawQuery : Nat → K) : Prop :=
  index.isNormalized ∧ 0 < index.numDimensions ∧ sumOfSquares fl index.numDimensions rawQuery = 0

/-- For an index, every rounding and every raw query: the result is determined by the inputs if and
only if it is not such a query. -/
def DeterminedUnlessZero (H : Type) [Heap H K] (quantizes : Bool) (index : IndexPDXIVF K E D) :
    Prop :=
  ∀ (pruner : ADSamplingPruner K) (nprobe : Nat) (std : StdSort) (fl sqrt : K → K)
    (rawQuery : Nat → K) (k : Nat) (evaluator : PredicateEvaluator),
    pruner.numDimensions = index.numDimensions → std.ComparesOnlySorted →
    (((Searcher.new pruner index).setNProbe nprobe).DeterminedByInputs H quantizes std fl sqrt
      rawQuery k evaluator ↔ ¬ ZeroSumNormalized fl index rawQuery)

omit [LinearOrder D] [Zero E] in
/-- A query that `NormalizeQuery` defines, or that is not normalised. -/
theorem globalQuery_eq {S : Searcher K E D}
    (hdims : S.pruner.numDimensions = S.pdxData.numDimensions) (fl sqrt : K → K)
    {rawQuery : Nat → K} (hquery : ¬ ZeroSumNormalized fl S.pdxData rawQuery)
    (memory memory' : Nat → K) :
    S.globalQuery fl sqrt memory rawQuery = S.globalQuery fl sqrt memory' rawQuery := by
  unfold globalQuery
  by_cases hnormalized : S.pdxData.isNormalized
  · rw [if_pos hnormalized, if_pos hnormalized]
    have hdefined : NormalizeQueryDefines fl sqrt S.pdxData.numDimensions rawQuery :=
      (normalizeQueryDefines_iff _ _ _ _).mpr fun h => hquery ⟨hnormalized, h⟩
    funext row
    unfold ADSamplingPruner.preprocessQuery ADSamplingPruner.rotate
    refine Finset.sum_congr rfl fun col hcol => ?_
    rw [hdefined memory memory' col (hdims ▸ Finset.mem_range.mp hcol)]
  · rw [if_neg hnormalized, if_neg hnormalized]

theorem determinedUnlessZero_of_local (H : Type) [Heap H K] (quantizes : Bool)
    {index : IndexPDXIVF K E D} (hlocal : index.quantization.Local) :
    DeterminedUnlessZero H quantizes index := by
  intro pruner nprobe std fl sqrt rawQuery k evaluator hdims hstd
  set S := (Searcher.new pruner index).setNProbe nprobe
  have hthreshold : 0 ≤ S.selectivityThreshold := by
    show (0 : Rat) ≤ 4 / 5
    norm_num
  constructor
  · rintro ⟨-, hdefined⟩ ⟨hnormalized, hzero⟩
    exact (normalizeQueryDefines_iff _ _ _ _).mp (hdefined hnormalized) hzero
  · intro hquery
    have hsame : ∀ (memory memory' : GlobalMemory K E D) (skip : Nat → Bool)
        (filter : Nat → Option Selection),
        S.runGlobalIn H quantizes std fl sqrt memory rawQuery k skip filter =
          S.runGlobalIn H quantizes std fl sqrt memory' rawQuery k skip filter := by
      intro memory memory' skip filter
      rw [runGlobalIn_eq hlocal hthreshold hdims hstd quantizes fl sqrt memory memory.arrays,
        runGlobalIn_eq hlocal hthreshold hdims hstd quantizes fl sqrt memory' memory.arrays,
        globalQuery_eq hdims fl sqrt hquery memory.normalizedQuery memory'.normalizedQuery]
    refine ⟨fun memory memory' => ⟨hsame _ _ _ _, hsame _ _ _ _⟩, fun hnormalized => ?_⟩
    exact (normalizeQueryDefines_iff _ _ _ _).mpr fun h => hquery ⟨hnormalized, h⟩

/-- For F32 and for U8. -/
theorem determinedUnlessZero {K H : Type} [Field K] [LinearOrder K]
    [FloorRing K] [Heap H K] :
    (∀ index : IndexPDXIVF K K (ExactFloat K), index.quantization = Quantization.f32 →
      DeterminedUnlessZero H false index) ∧
    ∀ (index : IndexPDXIVF K UInt8 Nat) (maxValue : UInt8) (params : ScalarQuantizationParams K),
      index.quantization = Quantization.u8 maxValue params → DeterminedUnlessZero H true index := by
  constructor
  · intro index hindex
    exact determinedUnlessZero_of_local H false (hindex ▸ Quantization.f32_local)
  · intro index maxValue params hindex
    exact determinedUnlessZero_of_local H true (hindex ▸ Quantization.u8_local maxValue params)

end Determined

/-- Buffers whose floats are all `x`. -/
def constantMemory (x : Rat) : GlobalMemory Rat Rat (ExactFloat Rat) :=
  ⟨fun _ => x, fun _ => x, fun _ => ofReal x, fun _ => 0, fun _ => x, constantArrays x, fun _ _ => 0⟩

/-- Rounding with an underflow: what is less than half of the least `float` becomes zero. -/
def flushToZero (x : Rat) : Rat := if |x| < 1 / 2 ^ 150 then 0 else x

/-- The nearest neighbour of the zero query: `1`, if the buffer for the normalised query held `1`, and
`-1`, if it held `-1`. -/
theorem searchGlobalIn_zeroQuery :
    ((Searcher.new unitPruner unitVectors).searchGlobalIn
        (SortedQueue (KNNCandidate.distance (K := Rat))) false StdSort.insertion id id
        (constantMemory 1) (fun _ => 0) 1 = [⟨0, ofReal 0⟩]) ∧
    ((Searcher.new unitPruner unitVectors).searchGlobalIn
        (SortedQueue (KNNCandidate.distance (K := Rat))) false StdSort.insertion id id
        (constantMemory (-1)) (fun _ => 0) 1 = [⟨1, ofReal 0⟩]) := by
  decide +kernel

/-- The same for a query whose square underflows. -/
theorem searchGlobalIn_tinyQuery :
    ((Searcher.new unitPruner unitVectors).searchGlobalIn
        (SortedQueue (KNNCandidate.distance (K := Rat))) false StdSort.insertion flushToZero id
        (constantMemory 1) (fun _ => 1 / 10 ^ 30) 1 = [⟨0, ofReal 0⟩]) ∧
    ((Searcher.new unitPruner unitVectors).searchGlobalIn
        (SortedQueue (KNNCandidate.distance (K := Rat))) false StdSort.insertion flushToZero id
        (constantMemory (-1)) (fun _ => 1 / 10 ^ 30) 1 = [⟨1, ofReal 0⟩]) := by
  decide +kernel

theorem not_determinedByInputs_zeroQuery :
    (¬ (Searcher.new unitPruner unitVectors).DeterminedByInputs
      (SortedQueue (KNNCandidate.distance (K := Rat))) false StdSort.insertion id id (fun _ => 0) 1
      (PredicateEvaluator.new 1)) ∧
    ¬ (Searcher.new unitPruner unitVectors).DeterminedByInputs
      (SortedQueue (KNNCandidate.distance (K := Rat))) false StdSort.insertion flushToZero id
      (fun _ => 1 / 10 ^ 30) 1 (PredicateEvaluator.new 1) := by
  have hne : ([⟨0, ofReal 0⟩] : List (KNNCandidate Rat)) ≠ [⟨1, ofReal 0⟩] := by decide
  constructor
  · rintro ⟨hsame, -⟩
    obtain ⟨hone, hminusOne⟩ := searchGlobalIn_zeroQuery
    exact hne (hone.symm.trans ((hsame (constantMemory 1) (constantMemory (-1))).1.trans hminusOne))
  · rintro ⟨hsame, -⟩
    obtain ⟨hone, hminusOne⟩ := searchGlobalIn_tinyQuery
    exact hne (hone.symm.trans ((hsame (constantMemory 1) (constantMemory (-1))).1.trans hminusOne))

theorem determinedUnlessZero_unitVectors :
    ((Searcher.new unitPruner unitVectors).setNProbe 1).DeterminedByInputs
        (SortedQueue (KNNCandidate.distance (K := Rat))) false StdSort.insertion flushToZero id
        (fun _ => 1) 1 (PredicateEvaluator.new 1) ↔
      ¬ ZeroSumNormalized flushToZero unitVectors (fun _ => 1) :=
  determinedUnlessZero.1 unitVectors rfl unitPruner 1 StdSort.insertion flushToZero id (fun _ => 1) 1
    (PredicateEvaluator.new 1) rfl StdSort.comparesOnlySorted_insertion

end Searcher

end PDXearch
