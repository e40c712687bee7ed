import PDXearch.Kernel.Probe
import PDXearch.Lib.SharedQueue

/-!
# The search methods of the parallel implementation

A row group's search shares the heap with the searches of other row groups. The lock-protected
steps are the threshold reads and `MergeIntoHeap` of a cluster; a search is a program whose calls
are these. A `note` marks that the search takes the next cluster from its access order; it stands
for no step of the source.
-/

namespace PDXearch

open Lib ExactFloat

/-- A threshold read: the cluster that is probed and the number of dimensions visited. -/
structure ThresholdRead where
  clusterIdx : Nat
  currentDimensionIdx : Nat

/-- A program that calls the shared heap. -/
abbrev SearchProgram (K α : Type) : Type :=
  QueueClient ThresholdRead (KNNCandidate K) Nat (ExactFloat K) α

/-- `HEAP_INITIALIZATION_ELEMENT` -/
def heapInitializationElement (K : Type) : KNNCandidate K := ⟨1337, ExactFloat.max⟩

/-- The heap a search starts with. -/
def initialHeap {K : Type} [LinearOrder K] (H : Type) [Heap H K] : H :=
  PriorityQueue.push (heapInitializationElement K) PriorityQueue.empty

theorem primed_initialHeap {K H : Type} [LinearOrder K] [Heap H K] {k : Nat} (hk : 0 < k) :
    Primed k (heapInitializationElement K) 0 (initialHeap H) := by
  refine ⟨hk, rfl, by simp, ?_⟩
  rw [initialHeap, PriorityQueue.elems_push, PriorityQueue.elems_empty]
  exact IsKSmallest.self hk

/-- `BuildResultSetFromHeap` -/
def buildResultSetFromHeap {K H : Type} [LinearOrder K] [Heap H K] (k : Nat) (heap : H) :
    List (KNNCandidate K) :=
  let heap := popSentinel heap
  PriorityQueue.drain (min (PriorityQueue.size heap) k) heap

/-- The result set of a heap that saw the sentinel and the candidates `A`: the `k` nearest of `A`,
in ascending distance. -/
theorem buildResultSetFromHeap_spec {K H : Type} [LinearOrder K] [Heap H K] {k : Nat}
    {A : Multiset (KNNCandidate K)} {heap : H}
    (hp : Primed k (heapInitializationElement K) A heap) :
    IsKSmallest KNNCandidate.distance k A (buildResultSetFromHeap (K := K) k heap) ∧
      (buildResultSetFromHeap (K := K) k heap).Pairwise (fun a b => a.distance ≤ b.distance) := by
  have hkept := hp.popSentinel_isKSmallest
  have hsize : PriorityQueue.size (popSentinel heap) ≤ k := by
    rw [PriorityQueue.size_eq, hkept.card_eq]
    exact min_le_left _ _
  obtain ⟨helems, hsorted⟩ := PriorityQueue.drain_all (min_eq_left hsize)
  exact ⟨helems ▸ hkept, hsorted⟩

/-- The result set of such a heap is what is in it without the sentinel. -/
theorem buildResultSetFromHeap_eq_elems {K H : Type} [LinearOrder K] [Heap H K] {k : Nat}
    {A : Multiset (KNNCandidate K)} {heap : H}
    (hp : Primed k (heapInitializationElement K) A heap) :
    (buildResultSetFromHeap (K := K) k heap : Multiset (KNNCandidate K)) =
      PriorityQueue.elems (popSentinel heap) := by
  have hsize : PriorityQueue.size (popSentinel heap) ≤ k := by
    rw [PriorityQueue.size_eq, hp.popSentinel_isKSmallest.card_eq]
    exact min_le_left _ _
  exact (PriorityQueue.drain_all (min_eq_left hsize)).1

/-- A heap without the sentinel: all of it, in ascending distance. -/
theorem buildResultSetFromHeap_of_lt_top {K H : Type} [LinearOrder K] [Heap H K] {k : Nat} {heap : H}
    (hlt : ∀ x ∈ PriorityQueue.elems heap, x.distance < ⊤)
    (hsize : (PriorityQueue.elems heap).card ≤ k) :
    (buildResultSetFromHeap (K := K) k heap : Multiset (KNNCandidate K)) =
        PriorityQueue.elems heap ∧
      (buildResultSetFromHeap (K := K) k heap).Pairwise (fun a b => a.distance ≤ b.distance) := by
  have hpop : popSentinel heap = heap := by
    rw [popSentinel]
    split
    · rfl
    · rename_i x hx
      exact if_neg (hlt x (PriorityQueue.mem_of_top? hx)).ne
  rw [buildResultSetFromHeap, hpop]
  refine PriorityQueue.drain_all (min_eq_left ?_)
  rwa [PriorityQueue.size_eq]

namespace Searcher

variable {K E D : Type} [Field K] [LinearOrder K] [LinearOrder D] [Zero E]
  (S : Searcher K E D)

/-- `GetPruningThreshold`, given the distance on top of the heap. -/
def getPruningThreshold (top : ExactFloat K) (currentDimensionIdx : Nat) : D :=
  S.pdxData.quantization.thresholdOfFloat (S.pruner.getPruningThreshold top currentDimensionIdx)

/-- The candidates that `MergeIntoHeap` offers to the heap. -/
def mergeCandidates (vectorIndices : Nat → Nat) (s : ProbeState D) : List (KNNCandidate K) :=
  s.notPruned.map fun index =>
    ⟨vectorIndices index, S.pdxData.quantization.floatOfDistance (s.pruningDistances index)⟩

/-- `MergeIntoHeap` -/
def mergeIntoHeap {H : Type} [Heap H K] (vectorIndices : Nat → Nat) (k : Nat)
    (s : ProbeState D) (heap : H) : H :=
  offerAll k (S.mergeCandidates vectorIndices s) heap

/-- The state at the start of a cluster: the arrays are those of the cluster before. -/
def startCluster (s : ProbeState D) : ProbeState D :=
  { s with
    pruningThreshold := S.pdxData.quantization.max
    currentDimensionIdx := 0
    nVectorsNotPruned := 0 }

/-- The body of the loop of `Search` and `FilteredSearch`: `Warmup`, `Prune` and, if vectors are
left, `MergeIntoHeap`. -/
def probeCluster (clusterIdx : Nat) (filter : Option Selection) (s : ProbeState D) :
    SearchProgram K (ProbeState D) :=
  let cluster := S.pdxData.cluster clusterIdx
  (S.probe S.preparedQuery cluster.data cluster.numEmbeddings filter (S.startCluster s)).interp
      (fun idx => .call (.look ⟨clusterIdx, idx⟩) fun top => .done (S.getPruningThreshold top idx))
    >>= fun s =>
      if s.nVectorsNotPruned ≠ 0 then
        .call (.offer (S.mergeCandidates cluster.indices s)) fun _ => .done s
      else .done s

/-- The loop of `Search` and `FilteredSearch` over the clusters still to be probed. -/
def probeClusters (skip : Nat → Bool) (filter : Nat → Option Selection) :
    List Nat → ProbeState D → SearchProgram K (ProbeState D)
  | [], s => .done s
  | clusterIdx :: clusters, s =>
    .call (.note clusterIdx) fun _ =>
      if skip clusterIdx then probeClusters skip filter clusters s
      else S.probeCluster clusterIdx (filter clusterIdx) s >>= probeClusters skip filter clusters

/-- The clusters that `Search` probes. -/
def searchClusters (numClustersToProbe : Nat) : List Nat :=
  S.clusterIndicesInAccessOrder.take (min numClustersToProbe S.pdxData.numClusters)

/-- `Search`; `arrays` holds the allocated, uninitialised arrays. -/
def search (numClustersToProbe : Nat) (arrays : ProbeState D) : SearchProgram K Unit :=
  S.probeClusters (fun c => (S.pdxData.cluster c).numEmbeddings = 0) (fun _ => none)
    (S.searchClusters numClustersToProbe) arrays >>= fun _ => .done ()

/-- Where the cursor of `FilteredSearch` stops. -/
def filteredEndIdx (numClustersToTryToProbe : Nat) : Nat :=
  min (S.clusterIndicesInAccessOrderOffset + numClustersToTryToProbe) S.pdxData.numClusters

/-- The clusters that `FilteredSearch` passes its cursor over. -/
def filteredSearchClusters (numClustersToTryToProbe : Nat) : List Nat :=
  (S.clusterIndicesInAccessOrder.take (S.filteredEndIdx numClustersToTryToProbe)).drop
    S.clusterIndicesInAccessOrderOffset

/-- `GetSelectionVector` for a cluster. -/
def selection (evaluator : PredicateEvaluator) (clusterIdx : Nat) : Selection :=
  evaluator.getSelectionVector clusterIdx (S.clusterOffsets clusterIdx)

/-- The searcher with its cursor moved. -/
def advance (numClustersToTryToProbe : Nat) : Searcher K E D :=
  { S with
    clusterIndicesInAccessOrderOffset :=
      max S.clusterIndicesInAccessOrderOffset (S.filteredEndIdx numClustersToTryToProbe) }

/-- `FilteredSearch`; returns the searcher with its cursor moved. An evaluator is asserted. -/
def filteredSearch (numClustersToTryToProbe : Nat) (arrays : ProbeState D) :
    SearchProgram K (Searcher K E D) :=
  match S.predicateEvaluator with
  | none => .done S
  | some evaluator =>
    S.probeClusters
        (fun c => (S.selection evaluator c).passingTuples = 0 ∨
          (S.pdxData.cluster c).numEmbeddings = 0)
        (fun c => some (S.selection evaluator c))
        (S.filteredSearchClusters numClustersToTryToProbe) arrays >>= fun _ =>
      .done (S.advance numClustersToTryToProbe)

end Searcher

end PDXearch
