import PDXearch.Create.SetUps
import PDXearch.Scan.SinkPhase

/-!
# Staging of row groups

Both sinks collect the rows of a row group and act on it when the next row group begins, or when the
thread is combined: the create sink sets its index up, the sink of the filtered scan starts its
search. Either acts once on every row group that occurs, with all of its rows.
-/

namespace PDXearch

open Lib

namespace FilteredScan

variable {K E D : Type} [Zero E] [Field K] [LinearOrder K] [LinearOrder D]
  (scan : FilteredScan K E D) (std : StdSort) (arrays : Nat → Nat → ProbeState D)

/-- The searches of a thread, one for each row group that occurs, in order and with exactly its row
ids; and what the thread appends to the row groups with passing tuples if the index has all of
them. -/
def SearchesRowGroups (inputChunks : List (List Nat)) : Prop :=
  ∃ groups, IsSortedGrouping getRowGroupId inputChunks.flatten groups ∧
    scan.sinkThread std arrays inputChunks ⟨0, [], []⟩ = scan.searchBatches std arrays groups ∧
    ((∀ g ∈ groups, (scan.index.rowGroups g.1).isSome) → ∀ tr found,
      (scan.sinkThread std arrays inputChunks ⟨0, [], []⟩).Runs tr found →
        found.map Prod.fst = groups.map Prod.fst)

theorem runs_searchBatch {batch : Batch} {tr : List (ScanEvent K)}
    {found : List (SearchedRowGroup K E D)} (hsome : (scan.index.rowGroups batch.1).isSome)
    (h : (scan.searchBatch std arrays batch).Runs tr found) : found.map Prod.fst = [batch.1] := by
  obtain ⟨rowGroup, hrowGroup⟩ := Option.isSome_iff_exists.mp hsome
  unfold searchBatch batchSearcher at h
  rw [hrowGroup] at h
  obtain ⟨searcher, tr₁, tr₂, -, -, h⟩ := Client.runs_bind_iff.mp h
  obtain ⟨-, rfl⟩ := Client.runs_done_iff.mp h
  rfl

theorem runs_searchBatches {groups : List Batch} {tr : List (ScanEvent K)}
    {found : List (SearchedRowGroup K E D)}
    (hsome : ∀ g ∈ groups, (scan.index.rowGroups g.1).isSome)
    (h : (scan.searchBatches std arrays groups).Runs tr found) :
    found.map Prod.fst = groups.map Prod.fst := by
  induction groups generalizing tr found with
  | nil =>
    obtain ⟨-, rfl⟩ := Client.runs_done_iff.mp h
    rfl
  | cons batch groups ih =>
    obtain ⟨found₁, tr₁, tr', -, h₁, h⟩ := Client.runs_bind_iff.mp h
    obtain ⟨found₂, tr₂, tr₃, -, h₂, h⟩ := Client.runs_bind_iff.mp h
    obtain ⟨-, rfl⟩ := Client.runs_done_iff.mp h
    rw [List.map_append, ih (fun g hg => hsome g (List.mem_cons_of_mem _ hg)) h₂,
      scan.runs_searchBatch std arrays (hsome batch List.mem_cons_self) h₁]
    rfl

theorem searchesRowGroups {inputChunks : List (List Nat)} (h : InOrder inputChunks) :
    scan.SearchesRowGroups std arrays inputChunks := by
  have hthread : scan.sinkThread std arrays inputChunks ⟨0, [], []⟩ =
      scan.searchBatches std arrays (batches 0 [] inputChunks) := by
    rw [sinkThread_eq]
    simp
  refine ⟨batches 0 [] inputChunks, batches_isSortedGrouping h, hthread,
    fun hsome tr found hruns => ?_⟩
  rw [hthread] at hruns
  exact scan.runs_searchBatches std arrays hsome hruns

end FilteredScan

/-! ## Both sinks -/

section Sinks

variable {K E D K' E' D' : Type} [Field K] [LinearOrder K] [Zero E] [Zero E'] [Field K']
  [LinearOrder K'] [LinearOrder D']

/-- The scan stages its row ids without loss; so does the create sink, and the embeddings with them if
and only if every chunk reads what it selects. -/
theorem sinks_stage_iff (op : CreateIndex K E D) (memory : EmbeddingBuffer K)
    (index : PDXearchWrapperParallel K E D) {chunks : List (CreateChunk K)}
    (hchunks : InOrder (chunks.map CreateChunk.rowIdList)) (scan : FilteredScan K' E' D')
    (std : StdSort) (arrays : Nat → Nat → ProbeState D') {inputChunks : List (List Nat)}
    (hinput : InOrder inputChunks) :
    ((op.StagesRowGroups chunks (CreateIndex.initialParallelState memory index) ∧
        scan.SearchesRowGroups std arrays inputChunks) ↔
      ∀ chunk ∈ chunks, op.ReadsSelected chunk) ∧
    IsSortedGrouping getRowGroupId (chunks.flatMap CreateChunk.rowIdList)
      ((op.setUps chunks (CreateIndex.initialParallelState memory index)).map fun call =>
        (call.rowGroupId, CreateIndex.bufferedRowIds call.rowGroup)) ∧
    scan.SearchesRowGroups std arrays inputChunks := by
  have hsearches := scan.searchesRowGroups std arrays hinput
  refine ⟨?_, op.setUps_rowIds_isSortedGrouping hchunks memory index, hsearches⟩
  rw [and_iff_left hsearches]
  exact CreateIndex.stagesRowGroups_iff_reads hchunks memory index

end Sinks

/-! ## Threads that skip row group 0 -/

/-- An empty chunk, a row of row group 1 and two rows of row group 2. -/
theorem sinks_stage_iff_skipped :
    CreateIndex.oneDimensional.StagesRowGroups
      [CreateIndex.flatChunk 0 0, CreateIndex.flatChunk 1 122880, CreateIndex.flatChunk 2 245760]
        (CreateIndex.initialParallelState ⟨0, fun _ => 0, fun _ => 0⟩ CreateIndex.emptyIndex) ∧
      (FilteredScan.mk 1 (fun _ => 0) 0 CreateIndex.emptyIndex).SearchesRowGroups StdSort.insertion
        (fun _ _ => ⟨fun _ => 0, fun _ => .ofReal 0, .ofReal 0, 0, 0⟩)
        [[], [122880], [245760, 245761]] := by
  refine (sinks_stage_iff CreateIndex.oneDimensional ⟨0, fun _ => 0, fun _ => 0⟩ CreateIndex.emptyIndex
    ⟨by decide, by decide⟩ ⟨1, fun _ => 0, 0, CreateIndex.emptyIndex⟩ StdSort.insertion
    (fun _ _ => ⟨fun _ => 0, fun _ => .ofReal 0, .ofReal 0, 0, 0⟩)
    ⟨by decide, by decide⟩).1.mpr ?_
  intro chunk hchunk
  simp only [List.mem_cons, List.not_mem_nil, or_false] at hchunk
  rcases hchunk with rfl | rfl | rfl <;> exact CreateIndex.readsSelected_flat _ rfl

/-- The filter drops row 0, and row 1 is staged with the embedding that stands at row 0. -/
theorem not_stagesRowGroups_nullFirst :
    InOrder ([CreateIndex.nullFirst.filterNotNull].map CreateChunk.rowIdList) ∧
      ¬ CreateIndex.oneDimensional.StagesRowGroups [CreateIndex.nullFirst.filterNotNull]
        (CreateIndex.initialParallelState ⟨0, fun _ => 0, fun _ => 0⟩ CreateIndex.emptyIndex) := by
  have hinOrder : InOrder ([CreateIndex.nullFirst.filterNotNull].map CreateChunk.rowIdList) :=
    ⟨by decide, by decide⟩
  refine ⟨hinOrder, fun h => ?_⟩
  have hread := (CreateIndex.stagesRowGroups_iff_reads hinOrder _ _).mp h _ List.mem_cons_self
  exact absurd (hread 0 (by decide) 0 (by decide)) (by decide +kernel)

end PDXearch
