import PDXearch.Create.Sink
import PDXearch.Index.Delivery

/-!
# The set-ups of a create thread

The calls of `SetUpIndexForRowGroup` that a thread makes depend on its chunks only. They are what
staging the rows that the sink reads hands on: one call for each row group that occurs, with all of
its rows. The rows that the sink reads are those of the chunk if the chunk `ReadsSelected`.
-/

namespace PDXearch

open Lib

/-- What a thread passes to `SetUpIndexForRowGroup`. -/
structure SetUpCall (K : Type) where
  rowGroupId : Nat
  rowGroup : EmbeddingBuffer K

/-- The row ids of a chunk. -/
def CreateChunk.rowIdList {K : Type} (chunk : CreateChunk K) : List Nat :=
  (List.range chunk.size).map chunk.rowIds.get

namespace CreateIndex

variable {K E D : Type} [Field K] [LinearOrder K] [Zero E] (op : CreateIndex K E D)

/-- A row id with a preprocessed embedding. -/
abbrev Row : Type := Nat × (Fin op.numDimensions → K)

/-- The rows that a chunk holds, with their embeddings preprocessed. -/
def rows (chunk : CreateChunk K) : List op.Row :=
  (List.range chunk.size).map fun i =>
    (chunk.rowIds.get i, fun d => op.preprocess (chunk.embeddings.get i) d)

/-- The rows that the sink reads off a chunk. -/
def readRows (chunk : CreateChunk K) : List op.Row :=
  (List.range chunk.size).map fun i =>
    (chunk.rowIds.get i, fun d => op.preprocess (chunk.embeddings.base.data i) d)

def bufferedRows (buffer : EmbeddingBuffer K) : List op.Row :=
  (List.range buffer.count).map fun p =>
    (buffer.rowIds p, fun d => buffer.embeddings (p * op.numDimensions + d))

/-- The row group that a call is about, with the rows it is given. -/
def setUpRows (call : SetUpCall K) : Nat × List op.Row :=
  (call.rowGroupId, op.bufferedRows call.rowGroup)

def rowGroupOf {op : CreateIndex K E D} (row : op.Row) : Nat := getRowGroupId row.1

/-! ## The calls -/

/-- `SetUpIndexForRowGroup` of the index that the threads share. -/
def setUp (index : PDXearchWrapperParallel K E D) (call : SetUpCall K) :
    PDXearchWrapperParallel K E D :=
  index.setUpIndexForRowGroup op.ctx op.quantizationOf call.rowGroup.rowIds
    call.rowGroup.embeddings call.rowGroup.count call.rowGroupId

/-- The calls that `Sink` makes on a chunk. -/
def sinkSetUps (s : ParallelSinkState K E D) (chunk : CreateChunk K) : List (SetUpCall K) :=
  if chunk.size = 0 then []
  else if s.rowGroupId < getRowGroupId (chunk.rowIds.get 0) ∧ 0 < s.rowGroup.count then
    [⟨s.rowGroupId, s.rowGroup⟩]
  else []

/-- The calls that `Combine` makes. -/
def combineSetUps (s : ParallelSinkState K E D) : List (SetUpCall K) :=
  if 0 < s.rowGroup.count then [⟨s.rowGroupId, s.rowGroup⟩] else []

/-- The calls of a thread that is given `chunks` and then combined. -/
def setUps : List (CreateChunk K) → ParallelSinkState K E D → List (SetUpCall K)
  | [], s => combineSetUps s
  | chunk :: chunks, s => sinkSetUps s chunk ++ setUps chunks (op.sink s chunk)

section Sink

variable {s : ParallelSinkState K E D} {chunk : CreateChunk K} (hsize : chunk.size ≠ 0)

include hsize

/-- A chunk of a later row group than the buffered one. -/
theorem sink_of_flush
    (hnew : s.rowGroupId < getRowGroupId (chunk.rowIds.get 0) ∧ 0 < s.rowGroup.count) :
    op.sink s chunk =
      { rowGroupId := getRowGroupId (chunk.rowIds.get 0)
        rowGroup := op.appendChunk chunk { s.rowGroup with count := 0 }
        index := op.setUpRowGroup s } := by
  unfold sink
  simp only [hsize, hnew, and_self, if_true, if_false]

/-- A chunk of the buffered row group, or nothing is buffered. -/
theorem sink_of_not_flush
    (hnew : ¬ (s.rowGroupId < getRowGroupId (chunk.rowIds.get 0) ∧ 0 < s.rowGroup.count)) :
    op.sink s chunk =
      { s with
        rowGroupId := getRowGroupId (chunk.rowIds.get 0)
        rowGroup := op.appendChunk chunk s.rowGroup } := by
  unfold sink
  simp only [hsize, hnew, if_false]

end Sink

theorem sink_index (s : ParallelSinkState K E D) (chunk : CreateChunk K) :
    (op.sink s chunk).index = (sinkSetUps s chunk).foldl op.setUp s.index := by
  unfold sinkSetUps
  by_cases hsize : chunk.size = 0
  · rw [if_pos hsize, sink, if_pos hsize]
    rfl
  · rw [if_neg hsize]
    split
    · rename_i hnew
      rw [op.sink_of_flush hsize hnew]
      rfl
    · rename_i hnew
      rw [op.sink_of_not_flush hsize hnew]
      rfl

omit [LinearOrder K] in
theorem combine_eq (s : ParallelSinkState K E D) :
    op.combine s = (combineSetUps s).foldl op.setUp s.index := by
  unfold combine combineSetUps
  split <;> rfl

/-- The calls are all that a thread does to the index. -/
theorem combine_foldl_sink (chunks : List (CreateChunk K)) (s : ParallelSinkState K E D) :
    op.combine (chunks.foldl op.sink s) = (op.setUps chunks s).foldl op.setUp s.index := by
  induction chunks generalizing s with
  | nil => exact op.combine_eq s
  | cons chunk chunks ih =>
    rw [List.foldl_cons, ih, setUps, List.foldl_append, sink_index]

/-! ## The rows of the calls -/

variable {op}

omit [Field K] [LinearOrder K] [Zero E] in
theorem bufferedRows_of_count_eq_zero {buffer : EmbeddingBuffer K} (h : buffer.count = 0) :
    op.bufferedRows buffer = [] := by
  rw [bufferedRows, h, List.range_zero, List.map_nil]

omit [Field K] [LinearOrder K] [Zero E] in
theorem isEmpty_bufferedRows (buffer : EmbeddingBuffer K) :
    (op.bufferedRows buffer).isEmpty ↔ ¬ 0 < buffer.count := by
  simp [bufferedRows, List.isEmpty_iff]

omit [Zero E] in
theorem bufferedRows_appendChunk (chunk : CreateChunk K) (buffer : EmbeddingBuffer K) :
    op.bufferedRows (op.appendChunk chunk buffer) = op.bufferedRows buffer ++ op.readRows chunk := by
  have hcount : (op.appendChunk chunk buffer).count = buffer.count + chunk.size := rfl
  unfold bufferedRows readRows
  rw [hcount, List.range_add, List.map_append, List.map_map]
  congr 1
  · refine List.map_congr_left fun p hp => ?_
    have hp' := List.mem_range.mp hp
    rw [appendChunk_rowIds_of_lt hp']
    refine congrArg _ (funext fun d => ?_)
    exact appendChunk_embeddings_of_lt chunk hp' d.isLt
  · refine List.map_congr_left fun i hi => ?_
    have hi' := List.mem_range.mp hi
    simp only [Function.comp_apply]
    rw [appendChunk_rowIds_add hi']
    refine congrArg _ (funext fun d => ?_)
    exact appendChunk_embeddings_add hi' d.isLt

variable (op)

omit [Zero E] in
theorem readRows_head {chunk : CreateChunk K} (h : chunk.size ≠ 0) :
    ∃ row rest, op.readRows chunk = row :: rest ∧ row.1 = chunk.rowIds.get 0 := by
  obtain ⟨size, hsize⟩ := Nat.exists_eq_succ_of_ne_zero h
  rw [readRows, hsize, List.range_succ_eq_map, List.map_cons]
  exact ⟨_, _, rfl, rfl⟩

/-- The calls of a thread hand on the staged rows. -/
theorem setUps_eq_stage (chunks : List (CreateChunk K)) (s : ParallelSinkState K E D) :
    (op.setUps chunks s).map op.setUpRows =
      stage rowGroupOf s.rowGroupId (op.bufferedRows s.rowGroup) (chunks.map op.readRows) := by
  induction chunks generalizing s with
  | nil =>
    unfold setUps combineSetUps
    rw [List.map_nil, stage]
    simp only [isEmpty_bufferedRows]
    by_cases hcount : 0 < s.rowGroup.count
    · simp [hcount, setUpRows]
    · simp [hcount]
  | cons chunk chunks ih =>
    rw [setUps, List.map_append, ih, List.map_cons]
    by_cases hsize : chunk.size = 0
    · have hread : op.readRows chunk = [] := by simp [readRows, hsize]
      simp [hread, stage, sink, sinkSetUps, hsize]
    · obtain ⟨row, rest, hread, hrow⟩ := op.readRows_head hsize
      have hkey : rowGroupOf row = getRowGroupId (chunk.rowIds.get 0) := congrArg _ hrow
      unfold sinkSetUps
      rw [if_neg hsize, hread, stage, hkey]
      simp only [isEmpty_bufferedRows, not_not]
      by_cases hnew : s.rowGroupId < getRowGroupId (chunk.rowIds.get 0) ∧ 0 < s.rowGroup.count
      · rw [if_pos hnew, if_pos hnew, op.sink_of_flush hsize hnew, bufferedRows_appendChunk,
          bufferedRows_of_count_eq_zero rfl, hread]
        rfl
      · rw [if_neg hnew, if_neg hnew, op.sink_of_not_flush hsize hnew, bufferedRows_appendChunk,
          hread]
        rfl

/-! ## Staging -/

/-- The thread sets up each row group that occurs in its chunks once, in order, from exactly its
rows, and does nothing else to the index. -/
structure StagesRowGroups (chunks : List (CreateChunk K)) (s : ParallelSinkState K E D) :
    Prop where
  combine_eq : op.combine (chunks.foldl op.sink s) = (op.setUps chunks s).foldl op.setUp s.index
  isSortedGrouping : IsSortedGrouping rowGroupOf (chunks.flatMap op.rows)
    ((op.setUps chunks s).map op.setUpRows)

omit [Zero E] in
theorem map_fst_readRows (chunk : CreateChunk K) :
    (op.readRows chunk).map Prod.fst = chunk.rowIdList := by
  rw [readRows, CreateChunk.rowIdList, List.map_map]
  rfl

omit [Zero E] in
theorem map_fst_rows (chunk : CreateChunk K) : (op.rows chunk).map Prod.fst = chunk.rowIdList := by
  rw [rows, CreateChunk.rowIdList, List.map_map]
  rfl

omit [Zero E] in
theorem readRows_inOrder {chunks : List (CreateChunk K)}
    (h : InOrder (chunks.map CreateChunk.rowIdList)) :
    ChunksInOrder rowGroupOf (chunks.map op.readRows) := by
  have hfst : (chunks.map op.readRows).map (List.map Prod.fst) =
      chunks.map CreateChunk.rowIdList := by
    rw [List.map_map]
    exact List.map_congr_left fun chunk _ => op.map_fst_readRows chunk
  have hids := h.chunksInOrder
  rw [← hfst] at hids
  constructor
  · intro chunk hchunk row hrow row' hrow'
    exact hids.sameKey _ (List.mem_map_of_mem hchunk) _ (List.mem_map_of_mem hrow) _
      (List.mem_map_of_mem hrow')
  · have hascending := hids.ascending
    rw [← List.map_flatten, List.pairwise_map] at hascending
    exact hascending

/-- The calls are a grouping of the rows that the sink reads. -/
theorem setUps_isSortedGrouping {chunks : List (CreateChunk K)}
    (h : InOrder (chunks.map CreateChunk.rowIdList)) (memory : EmbeddingBuffer K)
    (index : PDXearchWrapperParallel K E D) :
    IsSortedGrouping rowGroupOf (chunks.flatMap op.readRows)
      ((op.setUps chunks (initialParallelState memory index)).map op.setUpRows) := by
  rw [setUps_eq_stage, List.flatMap_def]
  exact stage_isSortedGrouping (op.readRows_inOrder h) fun _ _ => Nat.zero_le _

variable {op}

omit [Zero E] in
theorem readRows_eq_iff {chunk : CreateChunk K} :
    op.readRows chunk = op.rows chunk ↔ op.ReadsSelected chunk := by
  unfold readRows rows ReadsSelected
  rw [List.map_inj_left]
  constructor
  · intro h i hi d hd
    exact congrFun (Prod.mk.inj (h i (List.mem_range.mpr hi))).2 ⟨d, hd⟩
  · intro h i hi
    refine congrArg _ (funext fun d => ?_)
    exact h i (List.mem_range.mp hi) d d.isLt

omit [Zero E] in
theorem flatMap_readRows_eq_iff {chunks : List (CreateChunk K)} :
    chunks.flatMap op.readRows = chunks.flatMap op.rows ↔
      ∀ chunk ∈ chunks, op.ReadsSelected chunk := by
  induction chunks with
  | nil => simp
  | cons chunk chunks ih =>
    have hlength : (op.readRows chunk).length = (op.rows chunk).length := by simp [readRows, rows]
    rw [List.flatMap_cons, List.flatMap_cons, List.forall_mem_cons, ← ih, ← readRows_eq_iff]
    constructor
    · exact fun heq => List.append_inj heq hlength
    · rintro ⟨hchunk, hchunks⟩
      rw [hchunk, hchunks]

/-- Staging loses and misfiles nothing if and only if every chunk reads what it selects. -/
theorem stagesRowGroups_iff_reads {chunks : List (CreateChunk K)}
    (h : InOrder (chunks.map CreateChunk.rowIdList)) (memory : EmbeddingBuffer K)
    (index : PDXearchWrapperParallel K E D) :
    op.StagesRowGroups chunks (initialParallelState memory index) ↔
      ∀ chunk ∈ chunks, op.ReadsSelected chunk := by
  have hread := op.setUps_isSortedGrouping h memory index
  rw [← flatMap_readRows_eq_iff]
  constructor
  · intro hstages
    refine eq_of_filter_eq ?_ (hread.filter_eq hstages.isSortedGrouping.toIsGrouping)
    have hids : (chunks.flatMap op.readRows).map Prod.fst = (chunks.flatMap op.rows).map Prod.fst := by
      simp only [List.map_flatMap, map_fst_readRows, map_fst_rows]
    have hkeys := congrArg (List.map getRowGroupId) hids
    rwa [List.map_map, List.map_map] at hkeys
  · intro heq
    exact ⟨op.combine_foldl_sink chunks _, heq ▸ hread⟩

/-- The row ids of a buffer. -/
def bufferedRowIds (buffer : EmbeddingBuffer K) : List Nat :=
  (List.range buffer.count).map buffer.rowIds

variable (op)

/-- The row ids are staged without exception. -/
theorem setUps_rowIds_isSortedGrouping {chunks : List (CreateChunk K)}
    (h : InOrder (chunks.map CreateChunk.rowIdList)) (memory : EmbeddingBuffer K)
    (index : PDXearchWrapperParallel K E D) :
    IsSortedGrouping getRowGroupId (chunks.flatMap CreateChunk.rowIdList)
      ((op.setUps chunks (initialParallelState memory index)).map fun call =>
        (call.rowGroupId, bufferedRowIds call.rowGroup)) := by
  have hids : IsSortedGrouping getRowGroupId _ _ :=
    (op.setUps_isSortedGrouping h memory index).map Prod.fst fun _ => rfl
  rw [List.map_flatMap] at hids
  simpa only [map_fst_readRows, List.map_map, Function.comp_def, setUpRows, bufferedRows,
    bufferedRowIds] using hids

/-! ## Chunks and an index for examples -/

/-- Consecutive rows in flat vectors. -/
def flatChunk (size firstRow : Nat) : CreateChunk Rat where
  size := size
  embeddings := .flat ⟨fun i _ => i, fun _ => true⟩
  rowIds := .flat ⟨(firstRow + ·), fun _ => true⟩

/-- An index of dimension 1 without row groups. -/
def emptyIndex : PDXearchWrapperParallel Rat Rat (ExactFloat Rat) :=
  ⟨⟨1, false, 0, fun _ => 1⟩, 1, 3, fun _ => none⟩

end CreateIndex

end PDXearch
