import PDXearch.Index.FaithfulCopy
import PDXearch.Kernel.FilteredSearch
import PDXearch.Kernel.QueryHistory

/-!
# The row ids that searches report

A row id is a signed 64-bit number when it is given to `SetUpIndexForRowGroup` and when the scan
fetches the row, but a 32-bit one in between, in `Cluster::indices` and `KNNCandidate::index`. Queries
over any number of row groups, whatever their searches' calls and in whatever order these take the
lock, report the row ids of the embeddings whose distances were computed if and only if all row ids
given fit into 32 bits.
-/

namespace PDXearch

open Lib ExactFloat PriorityQueue Client

/-! ## What a sequence of calls offers -/

section Calls

variable {K E D M : Type} [Zero E] [Field K] [LinearOrder K] [LinearOrder D] [AddCommMonoid M]
  {S S' : Searcher K E D}

end Calls

/-! ## The embedding that a candidate is made for -/

section Made

variable {K E D : Type} [Zero E]

/-- The distance of embedding `e` to the prepared query, as the distance computer has it. -/
def BuildInput.distance (b : BuildInput K E D) (preparedQuery : Nat → E) (e : Nat) : ExactFloat K :=
  b.quantization.floatOfDistance (b.quantization.horizontal preparedQuery
    (fun d => b.quantization.encode (b.embeddings (e * b.numDimensions + d))) b.numDimensions)

/-- `MergeIntoHeap` makes the candidate from the slot that embedding `e` was stored in. -/
def IsMadeFor (b : BuildInput K E D) (S : Searcher K E D) (e : Nat) (x : KNNCandidate K) : Prop :=
  ∃ c p, IsSlot S.pdxData c p ∧ embeddingAt b.assignments c p = e ∧
    x = ⟨(S.pdxData.cluster c).indices p, b.distance S.preparedQuery e⟩

theorem IsMadeFor.lt {b : BuildInput K E D} {S : Searcher K E D} (hS : BuiltFrom b S) {n : Nat}
    {f : Nat → Nat} (ha : ∀ c, b.assignments c = (List.range n).filter fun e => f e = c) {e : Nat}
    {x : KNNCandidate K} (h : IsMadeFor b S e x) : e < n := by
  obtain ⟨c, p, hslot, rfl, -⟩ := h
  exact (hS.embeddingAt_slot ha hslot).1

variable [Field K] [LinearOrder K] [LinearOrder D]

/-- The distances in the index are those of the embeddings that it was built from. -/
structure MeasuresEmbeddings {M : Type} [AddCommMonoid M] (b : BuildInput K E D)
    {S : Searcher K E D} (μ : DistanceMeasure S M) : Prop extends IsMeasure S μ where
  distance_eq : ∀ c p, IsSlot S.pdxData c p →
    (μ.candidate c p).distance = b.distance S.preparedQuery (embeddingAt b.assignments c p)

theorem MeasuresEmbeddings.candidate_eq {M : Type} [AddCommMonoid M] {b : BuildInput K E D}
    {S : Searcher K E D} {μ : DistanceMeasure S M} (h : MeasuresEmbeddings b μ) {c p : Nat}
    (hslot : IsSlot S.pdxData c p) :
    IsMadeFor b S (embeddingAt b.assignments c p) (μ.candidate c p) :=
  ⟨c, p, hslot, rfl, KNNCandidate.ext rfl (h.distance_eq c p hslot)⟩

end Made

section Quantizations

variable {K : Type} [Field K] [LinearOrder K]

end Quantizations

/-! ## Queries on several row groups -/

/-- A query on `g` row groups. They share the heap; each has its own predicate evaluator and calls, with
the arrays that these allocate. -/
structure SharedQuery (K D : Type) (g : Nat) where
  std : StdSort
  preprocessedQuery : Nat → K
  k : Nat
  predicateEvaluator : Fin g → Option PredicateEvaluator
  calls : Fin g → List SearchCall
  arrays : Fin g → Nat → ProbeState D

section Queries

variable {K E D : Type} [Zero E] [Field K] [LinearOrder K] {g : Nat}

/-- Row group `i` after `InitializeSearch`. -/
def SharedQuery.searcher (query : SharedQuery K D g) (S : Fin g → Searcher K E D) (i : Fin g) :
    Searcher K E D :=
  (S i).initializeSearch query.std query.preprocessedQuery query.k (query.predicateEvaluator i)

variable [LinearOrder D]

/-- The heap with the sentinel, and the row groups' calls, which are made in any order. -/
def SharedQuery.start (query : SharedQuery K D g) (H : Type) [Heap H K]
    (S : Fin g → Searcher K E D) :
    Pool H (Fin g) (QueueOp ThresholdRead (KNNCandidate K) Nat) (QueueOp.Res (ExactFloat K))
      (Searcher K E D) :=
  ⟨initialHeap H, fun i => Searcher.runCalls (query.calls i) (query.arrays i) (query.searcher S i)⟩

variable {M : Type} [AddCommMonoid M] {H : Type} [Heap H K] {b : Fin g → BuildInput K E D}
  {S : Fin g → Searcher K E D} {n : Fin g → Nat} {f : Fin g → Nat → Nat}

end Queries

/-! ## The row groups of the wrapper -/

namespace PDXearchWrapperParallel

section Wrapper

variable {K E D : Type} [Zero E] [Field K] [LinearOrder K] {g : Nat}

end Wrapper

end PDXearchWrapperParallel

end PDXearch
