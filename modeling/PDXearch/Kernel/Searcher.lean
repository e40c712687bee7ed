import PDXearch.Kernel.ADSampling
import PDXearch.Kernel.Quantization
import PDXearch.Lib.StdSort
import PDXearch.Lib.Offsets
import Mathlib.Data.List.GetD

/-!
# The index and the searcher

`IndexPDXIVF` with its clusters, the predicate evaluator, and the state of the class `PDXearch`
(here `Searcher`) that searches one index: what the constructor computes and what
`InitializeSearch` sets up.
-/

namespace PDXearch

open Lib ExactFloat

/-- `Cluster`: `data` holds the embeddings in the transposed layout. -/
structure Cluster (E : Type) where
  numEmbeddings : Nat
  indices : Nat → Nat
  data : Nat → E

instance {E : Type} [Zero E] : Inhabited (Cluster E) := ⟨⟨0, fun _ => 0, fun _ => 0⟩⟩

/-- `IndexPDXIVF<Q>`; what only the U8 specialisation has is part of `quantization`. -/
structure IndexPDXIVF (K E D : Type) where
  numDimensions : Nat
  totalNumEmbeddings : Nat
  numClusters : Nat
  clusters : List (Cluster E)
  isNormalized : Bool
  centroids : Nat → K
  quantization : Quantization K E D

namespace IndexPDXIVF

variable {K E D : Type}

def numVerticalDimensions (index : IndexPDXIVF K E D) : Nat :=
  (getPDXDimensionSplit index.numDimensions).verticalDimensions

def numHorizontalDimensions (index : IndexPDXIVF K E D) : Nat :=
  (getPDXDimensionSplit index.numDimensions).horizontalDimensions

theorem vertical_add_horizontal (index : IndexPDXIVF K E D) :
    index.numVerticalDimensions + index.numHorizontalDimensions = index.numDimensions :=
  split_add _

theorem hDimSize_dvd (index : IndexPDXIVF K E D) : hDimSize ∣ index.numHorizontalDimensions :=
  hDimSize_dvd_horizontalDimensions _

/-- `clusters[clusterIdx]` -/
def cluster [Zero E] (index : IndexPDXIVF K E D) (clusterIdx : Nat) : Cluster E :=
  index.clusters.getD clusterIdx default

end IndexPDXIVF

/-- Slot `i` of cluster `c` holds a vector. -/
def IsSlot {K E D : Type} [Zero E] (index : IndexPDXIVF K E D) (c i : Nat) : Prop :=
  c < index.numClusters ∧ i < (index.cluster c).numEmbeddings

/-- The selection vector of one cluster with the number of its passing tuples. -/
structure Selection where
  selectionVector : Nat → Bool
  passingTuples : Nat

/-- `PredicateEvaluator`: the selection vectors of the clusters, one behind the other. -/
structure PredicateEvaluator where
  nPassingTuples : Nat → Nat
  selectionVector : Nat → Bool
  nClusters : Nat

namespace PredicateEvaluator

/-- The constructor: both arrays are zero-initialised. -/
def new (nClusters : Nat) : PredicateEvaluator := ⟨fun _ => 0, fun _ => false, nClusters⟩

def getSelectionVector (evaluator : PredicateEvaluator) (clusterId clusterOffset : Nat) :
    Selection :=
  ⟨fun i => evaluator.selectionVector (clusterOffset + i), evaluator.nPassingTuples clusterId⟩

end PredicateEvaluator

/-- The class `PDXearch`. -/
structure Searcher (K E D : Type) where
  pruner : ADSamplingPruner K
  pdxData : IndexPDXIVF K E D
  clusterOffsets : Nat → Nat
  selectivityThreshold : Rat
  ivfNprobe : Nat
  totalEmbeddings : Nat
  maxClusterSize : Nat
  clusterIndicesInAccessOrder : List Nat
  clusterIndicesInAccessOrderOffset : Nat
  k : Nat
  preparedQuery : Nat → E
  predicateEvaluator : Option PredicateEvaluator

namespace Searcher

variable {K E D : Type} [Zero E]

/-- The constructor's loop: the offsets array, the total and the greatest cluster size. -/
def scanClusters (index : IndexPDXIVF K E D) : (Nat → Nat) × Nat × Nat :=
  (List.range index.numClusters).foldl (fun (offsets, total, greatest) i =>
    (Function.update offsets i total, total + (index.cluster i).numEmbeddings,
      Max.max greatest (index.cluster i).numEmbeddings)) (fun _ => 0, 0, 0)

/-- The constructor. -/
def new (pruner : ADSamplingPruner K) (index : IndexPDXIVF K E D) : Searcher K E D where
  pruner := pruner
  pdxData := index
  clusterOffsets := (scanClusters index).1
  selectivityThreshold := 4 / 5
  ivfNprobe := 0
  totalEmbeddings := (scanClusters index).2.1
  maxClusterSize := (scanClusters index).2.2
  clusterIndicesInAccessOrder := []
  clusterIndicesInAccessOrderOffset := 0
  k := 0
  preparedQuery := fun _ => 0
  predicateEvaluator := none

def setNProbe (S : Searcher K E D) (nprobe : Nat) : Searcher K E D := { S with ivfNprobe := nprobe }

section Access

variable [Field K] [LinearOrder K]

/-- `GetClustersAccessOrderIVF`: the clusters by the distance of their centroids, at least the
first `nprobe` of them in order. -/
def getClustersAccessOrderIVF (std : StdSort) (query : Nat → K) (data : IndexPDXIVF K E D)
    (nprobe : Nat) : List Nat :=
  let distancesToCentroids := fun clusterIdx => horizontalF32 query
    (fun d => data.centroids (clusterIdx * data.numDimensions + d)) data.numDimensions
  if data.numClusters ≤ nprobe then
    std.sort distancesToCentroids (List.range data.numClusters)
  else std.partialSort distancesToCentroids nprobe (List.range data.numClusters)

omit [Zero E] in
theorem getClustersAccessOrderIVF_perm (std : StdSort) (query : Nat → K)
    (data : IndexPDXIVF K E D) (nprobe : Nat) :
    (getClustersAccessOrderIVF std query data nprobe).Perm (List.range data.numClusters) := by
  rw [getClustersAccessOrderIVF]
  split_ifs
  · exact std.sort_perm _ _
  · exact std.partialSort_perm _ _ _

def initializeSearch (std : StdSort) (preprocessedQuery : Nat → K) (k : Nat)
    (predicateEvaluator : Option PredicateEvaluator) (S : Searcher K E D) : Searcher K E D :=
  { S with
    k := k
    predicateEvaluator := predicateEvaluator
    clusterIndicesInAccessOrder :=
      getClustersAccessOrderIVF std preprocessedQuery S.pdxData S.pdxData.numClusters
    clusterIndicesInAccessOrderOffset := 0
    preparedQuery := S.pdxData.quantization.prepareQuery preprocessedQuery }

end Access

/-- The size of cluster `c`. -/
def clusterSize (index : IndexPDXIVF K E D) (c : Nat) : Nat := (index.cluster c).numEmbeddings

theorem scanClusters_offsets (index : IndexPDXIVF K E D) {c : Nat} (hc : c < index.numClusters) :
    (scanClusters index).1 c = offset (clusterSize index) c := by
  have hloop := foldl_range_induction (n := index.numClusters)
    (s := ((fun _ => 0, 0, 0) : (Nat → Nat) × Nat × Nat))
    (P := fun t s => (∀ c < t, s.1 c = offset (clusterSize index) c) ∧
      s.2.1 = offset (clusterSize index) t)
    (f := fun (offsets, total, greatest) i =>
      (Function.update offsets i total, total + (index.cluster i).numEmbeddings,
        Max.max greatest (index.cluster i).numEmbeddings))
    ⟨fun c hc => absurd hc (Nat.not_lt_zero c), rfl⟩ ?_
  · exact hloop.1 c hc
  · rintro t ⟨offsets, total, greatest⟩ _ ⟨hoffsets, htotal⟩
    refine ⟨fun c hc => ?_, ?_⟩
    · by_cases hct : c = t
      · subst hct
        simpa using htotal
      · exact (Function.update_of_ne hct _ _).trans (hoffsets c (by omega))
    · rw [offset_succ]
      exact congrArg (· + clusterSize index t) htotal

end Searcher

end PDXearch
