import PDXearch.Scan.FilteredScan
import PDXearch.Index.Delivery

/-!
# The Sink phase

Which row groups a thread of the Sink phase searches, and with which passing row ids, depends on the
chunks it is given only. If every row group goes to one thread, in order, these are the row groups
with passing tuples, each of them once and with all its passing row ids.
-/

namespace PDXearch

open Lib

/-- A row group with the row ids that are collected for it. -/
abbrev Batch : Type := Nat × List Nat

/-- The batches of a thread that has collected `passing` for row group `current`. -/
def batches : Nat → List Nat → List (List Nat) → List Batch
  | current, passing, [] => if passing.isEmpty then [] else [(current, passing)]
  | current, passing, inputChunk :: inputChunks =>
    if inputChunk.isEmpty then batches current passing inputChunks
    else if current < getRowGroupId (inputChunk.headD 0) ∧ ¬ passing.isEmpty then
      (current, passing) :: batches (getRowGroupId (inputChunk.headD 0)) inputChunk inputChunks
    else batches (getRowGroupId (inputChunk.headD 0)) (passing ++ inputChunk) inputChunks

/-- The Sink phase stages the passing row ids. -/
theorem batches_eq_stage (current : Nat) (passing : List Nat) (inputChunks : List (List Nat)) :
    batches current passing inputChunks = stage getRowGroupId current passing inputChunks := by
  induction inputChunks generalizing current passing with
  | nil => rfl
  | cons inputChunk inputChunks ih =>
    cases inputChunk with
    | nil => exact ih current passing
    | cons r inputChunk =>
      unfold batches stage
      simp only [List.isEmpty_cons, Bool.false_eq_true, if_false, List.headD_cons, ih]

theorem batches_isSortedGrouping {inputChunks : List (List Nat)} (h : InOrder inputChunks) :
    IsSortedGrouping getRowGroupId inputChunks.flatten (batches 0 [] inputChunks) := by
  rw [batches_eq_stage]
  exact stage_isSortedGrouping h.chunksInOrder fun _ _ => Nat.zero_le _

/-- Batches are searched for passing tuples only. -/
theorem ne_nil_of_mem_batches {current : Nat} {passing : List Nat} {inputChunks : List (List Nat)}
    {b : Batch} (hb : b ∈ batches current passing inputChunks) : b.2 ≠ [] := by
  rw [batches_eq_stage] at hb
  exact ne_nil_of_mem_stage hb

/-! ## The batches of all threads -/

section Threads

variable {threads : Nat} {inputChunks : Fin threads → List (List Nat)}

/-- The batches that are searched for the row ids that the filter emits. -/
def allBatches (inputChunks : Fin threads → List (List Nat)) : List Batch :=
  (List.finRange threads).flatMap fun i => batches 0 [] (inputChunks i)

theorem flatMap_allBatches (inputChunks : Fin threads → List (List Nat)) :
    (allBatches inputChunks).flatMap Prod.snd = filterResult inputChunks := by
  rw [allBatches, filterResult, List.flatMap_assoc]
  refine List.flatMap_congr fun i _ => ?_
  rw [batches_eq_stage, flatMap_stage, List.nil_append]

namespace Delivered

variable (h : Delivered inputChunks)

include h

theorem isGrouping_allBatches :
    IsGrouping getRowGroupId (filterResult inputChunks) (allBatches inputChunks) :=
  .flatMap (List.nodup_finRange threads)
    (fun i => (batches_isSortedGrouping (h.inOrder i)).toIsGrouping) h.oneThread

theorem getRowGroupId_of_mem {b : Batch} (hb : b ∈ allBatches inputChunks) :
    ∀ r ∈ b.2, getRowGroupId r = b.1 := by
  intro r hr
  rw [h.isGrouping_allBatches.items_eq b hb] at hr
  exact of_decide_eq_true (List.mem_filter.mp hr).2

theorem nodup_of_mem {b : Batch} (hb : b ∈ allBatches inputChunks) : b.2.Nodup := by
  rw [h.isGrouping_allBatches.items_eq b hb]
  exact h.nodup.filter _

/-- No row group is searched for two batches. -/
theorem nodup_rowGroupIds : ((allBatches inputChunks).map Prod.fst).Nodup :=
  h.isGrouping_allBatches.nodup

end Delivered

end Threads

/-! ## The programs of the threads -/

namespace FilteredScan

variable {K E D : Type} [Zero E] [Field K] [LinearOrder K] [LinearOrder D]
  (scan : FilteredScan K E D) (std : StdSort) (arrays : Nat → Nat → ProbeState D)

/-- The searcher that is initialised for a batch. -/
def batchSearcher (batch : Batch) : Option (Searcher K E D) :=
  (scan.index.rowGroups batch.1).map (scan.initializeFilteredSearch std batch.2)

/-- The search of one batch, and of several. -/
def searchBatch (batch : Batch) : ScanProgram K (List (SearchedRowGroup K E D)) :=
  match scan.batchSearcher std batch with
  | none => .done []
  | some searcher =>
    inRowGroup batch.1 (searcher.filteredSearch scan.partitionsToProbePerRowGroupOnFirstIteration
      (arrays batch.1 0)) >>= fun searcher => .done [(batch.1, searcher)]

def searchBatches : List Batch → ScanProgram K (List (SearchedRowGroup K E D))
  | [] => .done []
  | batch :: rest => scan.searchBatch std arrays batch >>= fun found =>
    searchBatches rest >>= fun found' => .done (found ++ found')

theorem searchCurrentRowGroup_eq (s : LocalSinkState K E D) :
    scan.searchCurrentRowGroup std arrays s =
      scan.searchBatch std arrays (s.currentRowGroupId, s.currentRowGroupPassingRowids) >>=
        fun found => .done { s with
          rowGroupsWithPassingTuples := s.rowGroupsWithPassingTuples ++ found } := by
  cases h : scan.index.rowGroups s.currentRowGroupId with
  | none => simp [searchCurrentRowGroup, searchBatch, batchSearcher, h]
  | some rowGroup =>
    simp [searchCurrentRowGroup, searchBatch, batchSearcher, h, Client.bind_assoc]

/-- A thread searches its batches. -/
theorem sinkThread_eq (inputChunks : List (List Nat)) (s : LocalSinkState K E D) :
    scan.sinkThread std arrays inputChunks s =
      scan.searchBatches std arrays
          (batches s.currentRowGroupId s.currentRowGroupPassingRowids inputChunks) >>=
        fun found => .done (s.rowGroupsWithPassingTuples ++ found) := by
  induction inputChunks generalizing s with
  | nil =>
    rw [sinkThread, combine, batches]
    by_cases hempty : s.currentRowGroupPassingRowids.isEmpty
    · simp [hempty, searchBatches]
    · simp [hempty, searchBatches, searchCurrentRowGroup_eq, Client.bind_assoc]
  | cons inputChunk inputChunks ih =>
    rw [sinkThread, sink, batches]
    by_cases hempty : inputChunk.isEmpty
    · simp only [hempty, if_true]
      exact ih s
    · simp only [hempty, Bool.false_eq_true, if_false]
      split
      · rw [searchBatches, searchCurrentRowGroup_eq]
        simp only [Client.bind_assoc, Client.done_bind, ih, List.nil_append, List.append_assoc]
      · simp only [Client.done_bind, ih]

end FilteredScan

end PDXearch
