import PDXearch.Kernel.Search

/-!
# The search methods of the global implementation

One thread searches one index with a heap of its own, which starts empty. As long as the heap has
room a cluster is scanned in full and its nearest vectors are inserted (`Start`, `FilteredStart`);
after that clusters are probed as in the parallel implementation.
-/

namespace PDXearch

open Lib ExactFloat

namespace Searcher

section Start

variable {K E D : Type} (S : Searcher K E D) (query data : Nat → E)

/-- The loop over the horizontal blocks, for the given vectors. -/
def addHorizontalBlocks (nVectors : Nat) (vectors : List Nat) (pruningDistances : Nat → D) :
    Nat → D :=
  (forRange S.pdxData.numHorizontalDimensions hDimSize).foldl (fun distances horizontalDimension =>
    vectors.foldl (fun distances vIdx =>
      let dataPos := S.pdxData.numVerticalDimensions * nVectors + horizontalDimension * nVectors +
        vIdx * hDimSize
      Function.update distances vIdx (S.pdxData.quantization.add (distances vIdx)
        (S.pdxData.quantization.horizontal
          (fun d => query (S.pdxData.numVerticalDimensions + horizontalDimension + d))
          (fun d => data (dataPos + d)) hDimSize))) distances) pruningDistances

variable [LinearOrder K] [LinearOrder D] {H : Type} [Heap H K]

/-- Insert the `maxPossibleK` nearest vectors. -/
def insertNearest (std : StdSort) (nVectors maxPossibleK : Nat) (vectorIndices : Nat → Nat)
    (pruningDistances : Nat → D) (heap : H) : H :=
  ((std.partialSort pruningDistances maxPossibleK (List.range nVectors)).take maxPossibleK).foldl
    (fun heap index => PriorityQueue.push
      ⟨vectorIndices index, S.pdxData.quantization.floatOfDistance (pruningDistances index)⟩ heap)
    heap

/-- `Start` -/
def start (std : StdSort) (nVectors k : Nat) (vectorIndices : Nat → Nat) (s : ProbeState D)
    (heap : H) : H × ProbeState D :=
  let distances := resetPruningDistances S.pdxData.quantization nVectors s.pruningDistances
  let distances := S.pdxData.quantization.vertical false query data nVectors nVectors 0
    S.pdxData.numVerticalDimensions distances s.pruningPositions
  let distances := S.addHorizontalBlocks query data nVectors (List.range nVectors) distances
  let maxPossibleK := min (k - PriorityQueue.size heap) nVectors
  (S.insertNearest std nVectors maxPossibleK vectorIndices distances heap,
    { s with pruningDistances := distances })

/-- `FilteredStart` -/
def filteredStart (std : StdSort) (nVectors k : Nat) (vectorIndices : Nat → Nat)
    (selection : Selection) (s : ProbeState D) (heap : H) : H × ProbeState D :=
  let distances := resetPruningDistances S.pdxData.quantization nVectors s.pruningDistances
  let selectionPercentage : Rat := selection.passingTuples / nVectors
  let (positions, nVectorsNotPruned) := initPositionsArrayFromSelectionVector nVectors
    s.pruningPositions selection.selectionVector
  let distances := S.addHorizontalBlocks query data nVectors
    ((List.range nVectorsNotPruned).map positions) distances
  let distances :=
    if 1 - S.selectivityThreshold < selectionPercentage then
      S.pdxData.quantization.vertical false query data nVectors nVectors 0
        S.pdxData.numVerticalDimensions distances positions
    else
      S.pdxData.quantization.vertical true query data nVectorsNotPruned nVectors 0
        S.pdxData.numVerticalDimensions distances positions
  let maxPossibleK := min (k - PriorityQueue.size heap) selection.passingTuples
  let distances := maskDistancesWithSelectionVector S.pdxData.quantization nVectors distances
    selection.selectionVector
  (S.insertNearest std nVectors maxPossibleK vectorIndices distances heap,
    { s with pruningPositions := positions, pruningDistances := distances })

end Start

variable {K E D : Type} [Field K] [LinearOrder K] [LinearOrder D] [Zero E]
  (S : Searcher K E D) {H : Type} [Heap H K]

/-- The body of the loop of `SearchGlobal` and `FilteredSearchGlobal`. -/
def visitCluster (std : StdSort) (k : Nat) (query : Nat → E) (clusterIdx : Nat)
    (filter : Option Selection) (heap : H) (s : ProbeState D) : H × ProbeState D :=
  let cluster := S.pdxData.cluster clusterIdx
  let s := S.startCluster s
  if PriorityQueue.size heap < k then
    match filter with
    | none => S.start query cluster.data std cluster.numEmbeddings k cluster.indices s heap
    | some selection =>
      S.filteredStart query cluster.data std cluster.numEmbeddings k cluster.indices selection s heap
  else
    let s := (S.probe query cluster.data cluster.numEmbeddings filter s).eval fun idx =>
      S.getPruningThreshold (PriorityQueue.topKey heap) idx
    (if s.nVectorsNotPruned ≠ 0 then S.mergeIntoHeap cluster.indices k s heap else heap, s)

/-- The loop of `SearchGlobal` and `FilteredSearchGlobal`. -/
def visitClusters (std : StdSort) (k : Nat) (query : Nat → E) (skip : Nat → Bool)
    (filter : Nat → Option Selection) : List Nat → H → ProbeState D → H
  | [], heap, _ => heap
  | clusterIdx :: clusters, heap, s =>
    if skip clusterIdx then visitClusters std k query skip filter clusters heap s
    else
      let (heap, s) := S.visitCluster std k query clusterIdx (filter clusterIdx) heap s
      visitClusters std k query skip filter clusters heap s

/-- The preprocessed query; `memory` is what the array for the normalised query held. -/
def globalQuery (fl sqrt : K → K) (memory rawQuery : Nat → K) : Nat → K :=
  if S.pdxData.isNormalized then
    S.pruner.preprocessQuery (normalizeQuery fl sqrt S.pdxData.numDimensions rawQuery memory)
  else S.pruner.preprocessQuery rawQuery

def clustersToVisit : Nat :=
  if S.ivfNprobe = 0 ∨ S.pdxData.numClusters < S.ivfNprobe then S.pdxData.numClusters
  else S.ivfNprobe

/-- The clusters that a global search visits, in order. -/
def visitedClusters (std : StdSort) (query : Nat → K) : List Nat :=
  (getClustersAccessOrderIVF std query S.pdxData S.clustersToVisit).take S.clustersToVisit

/-! ## The searcher's own query -/

/-- The searcher with a prepared query. -/
def withQuery {K E D : Type} (S : Searcher K E D) (query : Nat → E) : Searcher K E D :=
  { S with preparedQuery := query }

/-- A probe is told its query. -/
theorem probe_withQuery {K E D : Type} [LinearOrder D] (S : Searcher K E D) (query : Nat → E) :
    (S.withQuery query).probe = S.probe := by
  delta probe warmup warmupLoop prune pruneHorizontal pruneVertical
  rfl

/-- The global search does not look at the searcher's own query. -/
theorem visitClusters_withQuery (std : StdSort) (k : Nat) (own query : Nat → E) (skip : Nat → Bool)
    (filter : Nat → Option Selection) (clusters : List Nat) (heap : H) (s : ProbeState D) :
    (S.withQuery own).visitClusters std k query skip filter clusters heap s =
      S.visitClusters std k query skip filter clusters heap s := by
  induction clusters generalizing heap s with
  | nil => rfl
  | cons c clusters ih =>
    have hstep : (S.withQuery own).visitCluster std k query c (filter c) heap s =
        S.visitCluster std k query c (filter c) heap s := by
      unfold visitCluster
      rw [probe_withQuery]
      rfl
    rw [visitClusters, visitClusters, hstep]
    split
    · exact ih _ _
    · exact ih _ _

/-! ## The entry points -/

variable (H)

/-- `SearchGlobal` -/
def searchGlobal (std : StdSort) (fl sqrt : K → K) (memory rawQuery : Nat → K) (k : Nat)
    (arrays : ProbeState D) : List (KNNCandidate K) :=
  let query := S.globalQuery fl sqrt memory rawQuery
  buildResultSetFromHeap k (S.visitClusters std k (S.pdxData.quantization.prepareQuery query)
    (fun c => (S.pdxData.cluster c).numEmbeddings = 0) (fun _ => none)
    (S.visitedClusters std query) (PriorityQueue.empty : H) arrays)

/-- `FilteredSearchGlobal` -/
def filteredSearchGlobal (std : StdSort) (fl sqrt : K → K) (memory rawQuery : Nat → K) (k : Nat)
    (evaluator : PredicateEvaluator) (arrays : ProbeState D) : List (KNNCandidate K) :=
  let query := S.globalQuery fl sqrt memory rawQuery
  buildResultSetFromHeap k (S.visitClusters std k (S.pdxData.quantization.prepareQuery query)
    (fun c => (S.selection evaluator c).passingTuples = 0 ∨ (S.pdxData.cluster c).numEmbeddings = 0)
    (fun c => some (S.selection evaluator c)) (S.visitedClusters std query)
    (PriorityQueue.empty : H) arrays)

end Searcher

end PDXearch
