import PDXearch.Index.IndexedRows

/-!
# The filtered index scan

`PhysicalPDXearchIndexFilteredScan`. In the Sink phase every thread collects the row ids that the
filter emits and, whenever a row group is complete, starts a filtered search of it. The phase ends
when the shared heap holds `k` candidates or after the greatest number of iterations; until then an
event lets every row group's search pass over its next clusters. A state of the machine below is a
pool of the threads or of the tasks of one event, and its steps are the lock-protected steps of
these and what the scheduler does when all of them have ended.
-/

namespace PDXearch

open Lib ExactFloat

/-- A program of the scan. Its threshold reads and the clusters it takes go by the row group. -/
abbrev ScanProgram (K α : Type) : Type :=
  QueueClient (Nat × ThresholdRead) (KNNCandidate K) (Nat × Nat) (ExactFloat K) α

/-- The threads or tasks that share the heap. -/
abbrev ScanPool (K H ι α : Type) : Type :=
  Pool H ι (QueueOp (Nat × ThresholdRead) (KNNCandidate K) (Nat × Nat))
    (QueueOp.Res (ExactFloat K)) α

abbrev ScanEvent (K : Type) : Type :=
  Client.Event (QueueOp (Nat × ThresholdRead) (KNNCandidate K) (Nat × Nat))
    (QueueOp.Res (ExactFloat K))

def inRowGroup {K α : Type} (rowGroupId : Nat) (program : SearchProgram K α) : ScanProgram K α :=
  QueueClient.relabel (rowGroupId, ·) (rowGroupId, ·) program

/-- A row group with passing tuples, and the searcher that the index keeps for it. -/
abbrev SearchedRowGroup (K E D : Type) : Type := Nat × Searcher K E D

/-- `PhysicalFilteredScanLocalSinkState`; of the row groups with passing tuples not only the ids. -/
structure LocalSinkState (K E D : Type) where
  currentRowGroupId : Nat
  currentRowGroupPassingRowids : List Nat
  rowGroupsWithPassingTuples : List (SearchedRowGroup K E D)

/-- The operator with what `PhysicalFilteredScanGlobalSinkState` is constructed from; `limit` is an
`idx_t`. -/
structure FilteredScan (K E D : Type) where
  limit : Nat
  preprocessedQueryEmbedding : Nat → K
  nProbe : Nat
  index : PDXearchWrapperParallel K E D

/-- The phases of the operator. -/
inductive ScanState (K E D H : Type) (threads : Nat)
  | sinking (pool : ScanPool K H (Fin threads) (List (SearchedRowGroup K E D)))
  | iterating (numProbeIterationsPerformedThusFar : Nat)
      (rowGroupsWithPassingTuples : List (SearchedRowGroup K E D))
      (pool : ScanPool K H (Fin rowGroupsWithPassingTuples.length) (Searcher K E D))
  | source (numProbeIterationsPerformedThusFar : Nat) (globalHeap : H) (pdxearchRowIds : List Nat)

/-- `PARTITIONS_TO_PROBE_PER_ROW_GROUP_PER_FOLLOW_UP_ITERATION` -/
def partitionsToProbePerRowGroupPerFollowUpIteration : Nat := 5

/-- `GetMaximumNumberOfProbeIterations` -/
def getMaximumNumberOfProbeIterations (totalNumClusters
    partitionsToProbePerRowGroupOnFirstIteration : Nat) : Nat :=
  if totalNumClusters ≤ partitionsToProbePerRowGroupOnFirstIteration then 1
  else 1 + ⌈((totalNumClusters - partitionsToProbePerRowGroupOnFirstIteration : Nat) : Rat) /
    partitionsToProbePerRowGroupPerFollowUpIteration⌉.toNat

namespace FilteredScan

variable {K E D : Type} (scan : FilteredScan K E D)

/-- The limit as the `uint32_t` that `InitializeFilteredSearchForRowGroup` and
`BuildResultSetFromHeap` take. -/
def k : Nat := scan.limit % 2 ^ 32

theorem k_eq {scan : FilteredScan K E D} (hlimit : scan.limit < 2 ^ 32) : scan.k = scan.limit :=
  Nat.mod_eq_of_lt hlimit

def partitionsToProbePerRowGroupOnFirstIteration : Nat :=
  if scan.nProbe = 0 ∨ scan.index.numClustersPerRowGroup < scan.nProbe then
    scan.index.numClustersPerRowGroup
  else scan.nProbe

/-- The initialiser of this member runs before the body of the constructor sets the number of
partitions of the first iteration, which is still zero. -/
def maxNumProbeIterations : Nat :=
  getMaximumNumberOfProbeIterations scan.index.numClustersPerRowGroup 0

variable [Zero E] [Field K] [LinearOrder K] (std : StdSort)

/-- `InitializeFilteredSearchForRowGroup` -/
def initializeFilteredSearch (passingRowIds : List Nat) (rowGroup : PDXRowGroup K E D) :
    Searcher K E D :=
  rowGroup.searcher.initializeSearch std scan.preprocessedQueryEmbedding scan.k
    (some (createPredicateEvaluatorForRowGroup passingRowIds rowGroup))

variable [LinearOrder D] (arrays : Nat → Nat → ProbeState D)

/-! ## Sink and Combine -/

/-- The two calls of `Sink` and `Combine` that start the search of the current row group; `arrays`
holds what a search finds in its arrays. The index has a row group for every row it is asked for. -/
def searchCurrentRowGroup (s : LocalSinkState K E D) : ScanProgram K (LocalSinkState K E D) :=
  match scan.index.rowGroups s.currentRowGroupId with
  | none => .done s
  | some rowGroup =>
    inRowGroup s.currentRowGroupId
        ((scan.initializeFilteredSearch std s.currentRowGroupPassingRowids rowGroup).filteredSearch
          scan.partitionsToProbePerRowGroupOnFirstIteration (arrays s.currentRowGroupId 0))
      >>= fun searcher => .done { s with
        rowGroupsWithPassingTuples :=
          s.rowGroupsWithPassingTuples ++ [(s.currentRowGroupId, searcher)] }

/-- `Sink` -/
def sink (inputChunk : List Nat) (s : LocalSinkState K E D) :
    ScanProgram K (LocalSinkState K E D) :=
  if inputChunk.isEmpty then .done s
  else
    let rowGroupId := getRowGroupId (inputChunk.headD 0)
    (if s.currentRowGroupId < rowGroupId ∧ ¬ s.currentRowGroupPassingRowids.isEmpty then
      scan.searchCurrentRowGroup std arrays s >>= fun s =>
        .done { s with currentRowGroupPassingRowids := [] }
    else .done s) >>= fun s => .done { s with
      currentRowGroupId := rowGroupId
      currentRowGroupPassingRowids := s.currentRowGroupPassingRowids ++ inputChunk }

/-- `Combine`; returns what is merged into the global state. -/
def combine (s : LocalSinkState K E D) : ScanProgram K (List (SearchedRowGroup K E D)) :=
  (if ¬ s.currentRowGroupPassingRowids.isEmpty then scan.searchCurrentRowGroup std arrays s
  else .done s) >>= fun s => .done s.rowGroupsWithPassingTuples

/-- A thread of the Sink phase, with the chunks that it is given. -/
def sinkThread : List (List Nat) → LocalSinkState K E D →
    ScanProgram K (List (SearchedRowGroup K E D))
  | [], s => scan.combine std arrays s
  | inputChunk :: inputChunks, s =>
    scan.sink std arrays inputChunk s >>= sinkThread inputChunks

/-! ## The machine -/

section Machine

variable (H : Type) [Heap H K] {threads : Nat}

/-- The Sink phase before the first chunk. -/
def start (inputChunks : Fin threads → List (List Nat)) : ScanState K E D H threads :=
  .sinking ⟨initialHeap H, fun i => scan.sinkThread std arrays (inputChunks i) ⟨0, [], []⟩⟩

variable {H}

/-- `PhysicalFilteredScanSearchIterationEvent::Schedule`, with the tasks' `ExecuteTask` -/
def schedule (numProbeIterationsPerformedThusFar : Nat)
    (rowGroupsWithPassingTuples : List (SearchedRowGroup K E D)) (globalHeap : H) :
    ScanPool K H (Fin rowGroupsWithPassingTuples.length) (Searcher K E D) :=
  ⟨globalHeap, fun i =>
    let (rowGroupId, searcher) := rowGroupsWithPassingTuples.get i
    inRowGroup rowGroupId (searcher.filteredSearch partitionsToProbePerRowGroupPerFollowUpIteration
      (arrays rowGroupId numProbeIterationsPerformedThusFar))⟩

/-- `is_heap_filled_with_k_valid_results`, which compares the size with the `idx_t`. -/
def IsHeapFilledWithKValidResults (globalHeap : H) : Prop :=
  PriorityQueue.size globalHeap = scan.limit ∧
    PriorityQueue.topKey globalHeap ≠ (heapInitializationElement K).distance

instance (globalHeap : H) : Decidable (scan.IsHeapFilledWithKValidResults globalHeap) :=
  inferInstanceAs (Decidable (_ ∧ _))

/-- `TryFinalizeSinkPhase` -/
def tryFinalizeSinkPhase (numProbeIterationsPerformedThusFar : Nat)
    (rowGroupsWithPassingTuples : List (SearchedRowGroup K E D)) (globalHeap : H) :
    ScanState K E D H threads :=
  if scan.IsHeapFilledWithKValidResults globalHeap ∨
      numProbeIterationsPerformedThusFar = scan.maxNumProbeIterations then
    .source numProbeIterationsPerformedThusFar globalHeap
      ((buildResultSetFromHeap scan.k globalHeap).map KNNCandidate.index)
  else .iterating numProbeIterationsPerformedThusFar rowGroupsWithPassingTuples
    (schedule arrays numProbeIterationsPerformedThusFar rowGroupsWithPassingTuples globalHeap)

/-- A lock-protected step of a thread or task, or a step of the scheduler: `Finalize`, after all
threads have been combined in some order, and `FinishEvent`. -/
inductive Step : ScanState K E D H threads → List (ScanEvent K) → ScanState K E D H threads → Prop
  | sink {p q : ScanPool K H (Fin threads) (List (SearchedRowGroup K E D))}
      {e : Fin threads × ScanEvent K} (h : Pool.Step (queueObj scan.k) p e q) :
      Step (.sinking p) [e.2] (.sinking q)
  | finalize {p : ScanPool K H (Fin threads) (List (SearchedRowGroup K E D))}
      {combined : Fin threads → List (SearchedRowGroup K E D)} {order : List (Fin threads)}
      (h : ∀ i, p.task i = .done (combined i)) (horder : order.Perm (List.finRange threads)) :
      Step (.sinking p) []
        (scan.tryFinalizeSinkPhase arrays 1 (order.flatMap combined) p.shared)
  | iterate {n : Nat} {rowGroups : List (SearchedRowGroup K E D)}
      {p q : ScanPool K H (Fin rowGroups.length) (Searcher K E D)}
      {e : Fin rowGroups.length × ScanEvent K} (h : Pool.Step (queueObj scan.k) p e q) :
      Step (.iterating n rowGroups p) [e.2] (.iterating n rowGroups q)
  | finishEvent {n : Nat} {rowGroups : List (SearchedRowGroup K E D)}
      {p : ScanPool K H (Fin rowGroups.length) (Searcher K E D)}
      {searchers : Fin rowGroups.length → Searcher K E D}
      (h : ∀ i, p.task i = .done (searchers i)) :
      Step (.iterating n rowGroups p) []
        (scan.tryFinalizeSinkPhase arrays (n + 1)
          (List.ofFn fun i => ((rowGroups.get i).1, searchers i)) p.shared)

/-- A finite sequence of steps, with the lock-protected ones. -/
inductive Run : ScanState K E D H threads → List (ScanEvent K) → ScanState K E D H threads → Prop
  | refl (s : ScanState K E D H threads) : Run s [] s
  | snoc {s s' s'' : ScanState K E D H threads} {tr tr' : List (ScanEvent K)} (h : Run s tr s')
      (hs : scan.Step arrays s' tr' s'') : Run s (tr ++ tr') s''

end Machine

end FilteredScan

end PDXearch
