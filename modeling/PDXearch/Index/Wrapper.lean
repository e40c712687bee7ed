import PDXearch.Index.Build
import PDXearch.Lib.FloatRounding
import Mathlib.Data.Rat.Floor

/-!
# The wrappers

`PDXearchWrapperParallel` keeps one index for each row group of the table, `PDXearchWrapperGlobal`
one index for all of it. Both are templates over the quantization; an index's quantization may
depend on its embeddings.
-/

namespace PDXearch

open Lib

/-- `DEFAULT_ROW_GROUP_SIZE` -/
def defaultRowGroupSize : Nat := 122880

def getRowGroupId (rowId : Nat) : Nat := rowId / defaultRowGroupSize

/-- The template parameter of the wrappers: the quantization of an index, given its embeddings and
their number of elements. -/
abbrev QuantizationOf (K E D : Type) : Type := (Nat → K) → Nat → Quantization K E D

def quantizationF32 {K : Type} [Field K] [LinearOrder K] : QuantizationOf K K (ExactFloat K) :=
  fun _ _ => Quantization.f32

def quantizationU8 {K : Type} [Field K] [LinearOrder K] [FloorRing K] (maxValue : UInt8) :
    QuantizationOf K UInt8 Nat :=
  fun embeddings totalElements =>
    Quantization.u8 maxValue (computeQuantizationParams maxValue embeddings totalElements)

/-- What an index is built with: the square root, the clustering library, and the contents of the
arrays that are allocated for the clusters. -/
structure BuildContext (K E : Type) where
  sqrt : K → K
  kmeans : SuperKMeans K
  memory : Nat → Cluster E

/-- A context to run examples in, whose clustering deals the embeddings out in turn. -/
def BuildContext.roundRobin (K E : Type) [Zero E] : BuildContext K E where
  sqrt := id
  kmeans := ⟨fun embeddings _ _ => embeddings, fun _ _ _ numClusters e => e % numClusters⟩
  memory _ := default

theorem BuildContext.roundRobin_inRange {K E : Type} [Zero E] (embeddings : Nat → K) (n : Nat)
    {numClusters : Nat} (h : 0 < numClusters) :
    (roundRobin K E).kmeans.InRange embeddings n numClusters :=
  fun e _ => Nat.mod_lt e h

/-- `PDXearchWrapper` -/
structure PDXearchWrapper (K : Type) where
  numDimensions : Nat
  isNormalized : Bool
  nProbe : Nat
  rotationMatrix : Nat → K

/-- `PDXRowGroup`, after its set-up; the searcher holds the index and the pruner. -/
structure PDXRowGroup (K E D : Type) where
  rowIdMetadata : Nat → RowIdClusterMapping
  searcher : Searcher K E D

/-- Where the metadata say that a row is. -/
def PDXRowGroup.slotOf {K E D : Type} (rowGroup : PDXRowGroup K E D) (rowId : Nat) :
    RowIdClusterMapping :=
  rowGroup.rowIdMetadata (rowId % defaultRowGroupSize)

/-- Embeddings and row ids that are collected until an index is set up from them. -/
structure EmbeddingBuffer (K : Type) where
  count : Nat
  embeddings : Nat → K
  rowIds : Nat → Nat

structure PDXearchWrapperParallel (K E D : Type) extends PDXearchWrapper K where
  numClustersPerRowGroup : Nat
  numRowGroups : Nat
  rowGroups : Nat → Option (PDXRowGroup K E D)

structure PDXearchWrapperGlobal (K E D : Type) extends PDXearchWrapper K where
  numClusters : Nat
  totalNumEmbeddings : Nat
  rowIdClusterMapping : Nat → RowIdClusterMapping
  searcher : Option (Searcher K E D)

section SetUp

variable {K E D : Type} [Field K] [LinearOrder K] [Zero E]

/-- The input of the loop that fills an index's clusters. -/
def PDXearchWrapper.buildInput (w : PDXearchWrapper K) (ctx : BuildContext K E)
    (Q : QuantizationOf K E D) (numClusters : Nat) (mappingIdx rowIds : Nat → Nat)
    (embeddings : Nat → K) (numEmbeddings : Nat) : BuildInput K E D where
  quantization := Q embeddings (numEmbeddings * w.numDimensions)
  numDimensions := w.numDimensions
  numClusters := numClusters
  mappingIdx := mappingIdx
  rowIds := rowIds
  embeddings := embeddings
  assignments := (computeKMeans ctx.kmeans embeddings numEmbeddings numClusters).assignments
  memory := ctx.memory

/-- The index with the clusters that were filled, and its searcher. -/
def PDXearchWrapper.builtSearcher (w : PDXearchWrapper K) (ctx : BuildContext K E)
    (b : BuildInput K E D) (numEmbeddings : Nat) : Searcher K E D :=
  Searcher.new (ADSamplingPruner.new ctx.sqrt w.numDimensions w.rotationMatrix)
    { numDimensions := w.numDimensions
      totalNumEmbeddings := numEmbeddings
      numClusters := b.numClusters
      clusters := b.build.clusters
      isNormalized := w.isNormalized
      centroids := (computeKMeans ctx.kmeans b.embeddings numEmbeddings b.numClusters).centroids
      quantization := b.quantization }

namespace PDXearchWrapperParallel

def computeNumClustersForRowGroup (numEmbeddings : Nat) : Nat :=
  if numEmbeddings < 2048 then 1 else if numEmbeddings < defaultRowGroupSize / 4 then 120 else 480

/-- `std::ceil((float)estimated_cardinality / DEFAULT_ROW_GROUP_SIZE)`: the conversion and the division
are rounded to floats. -/
def estimatedNumRowGroups (estimatedCardinality : Nat) : Nat :=
  ⌈roundFloat fltMantDig
    (roundFloat fltMantDig (estimatedCardinality : Rat) / defaultRowGroupSize)⌉.toNat

/-- The constructor; an estimated cardinality of zero is an `InternalException`. -/
def new (base : PDXearchWrapper K) (estimatedCardinality : Nat) :
    Option (PDXearchWrapperParallel K E D) :=
  if estimatedCardinality = 0 then none
  else some { base with
    numClustersPerRowGroup := computeNumClustersForRowGroup estimatedCardinality
    numRowGroups := estimatedNumRowGroups estimatedCardinality
    rowGroups := fun _ => none }

omit [Field K] [LinearOrder K] [Zero E] in
theorem new_spec {base : PDXearchWrapper K} {n : Nat} {w : PDXearchWrapperParallel K E D}
    (h : new base n = some w) :
    0 < n ∧ w.numClustersPerRowGroup = computeNumClustersForRowGroup n ∧
      w.numRowGroups = estimatedNumRowGroups n ∧ ∀ g, w.rowGroups g = none := by
  unfold new at h
  split at h
  · cases h
  · rename_i hzero
    obtain rfl := Option.some.inj h
    exact ⟨Nat.pos_of_ne_zero hzero, rfl, rfl, fun _ => rfl⟩

variable (w : PDXearchWrapperParallel K E D)

/-- The row group that `SetUpIndexForRowGroup` builds. -/
def builtRowGroup (ctx : BuildContext K E) (Q : QuantizationOf K E D) (rowIds : Nat → Nat)
    (embeddings : Nat → K) (numEmbeddings : Nat) : PDXRowGroup K E D :=
  let b := w.buildInput ctx Q w.numClustersPerRowGroup (· % defaultRowGroupSize) rowIds embeddings
    numEmbeddings
  ⟨b.build.mapping, w.builtSearcher ctx b numEmbeddings⟩

def setUpIndexForRowGroup (ctx : BuildContext K E) (Q : QuantizationOf K E D) (rowIds : Nat → Nat)
    (embeddings : Nat → K) (numEmbeddings rowGroupId : Nat) : PDXearchWrapperParallel K E D :=
  { w with
    rowGroups := Function.update w.rowGroups rowGroupId
      (some (w.builtRowGroup ctx Q rowIds embeddings numEmbeddings)) }

end PDXearchWrapperParallel

namespace PDXearchWrapperGlobal

variable (w : PDXearchWrapperGlobal K E D)

def setUpGlobalIndex (ctx : BuildContext K E) (Q : QuantizationOf K E D) (rowIds : Nat → Nat)
    (embeddings : Nat → K) (numEmbeddings : Nat) : PDXearchWrapperGlobal K E D :=
  let b := w.buildInput ctx Q w.numClusters id rowIds embeddings numEmbeddings
  { w with
    rowIdClusterMapping := b.build.mapping
    searcher := some (w.builtSearcher ctx b numEmbeddings) }

end PDXearchWrapperGlobal

end SetUp

end PDXearch
