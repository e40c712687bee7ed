import PDXearch.Create.DataChunk
import PDXearch.Index.Wrapper

/-!
# The create sinks

`PhysicalCreatePDXearchIndex::Sink` buffers the rows of one row group and sets up its index when the
next one begins; `PhysicalCreateGlobalPDXearchIndex::Sink` buffers all rows. Both append a chunk's
preprocessed embeddings and its row ids to two buffers.

The embeddings are read by `ArrayVector::GetEntry`, the row ids after `Flatten`. The two agree on
which rows they are about exactly when the chunk `ReadsSelected`.
-/

namespace PDXearch

open Lib

section Preprocessor

variable {K : Type} [Field K] [LinearOrder K]

/-- `EmbeddingPreprocessor` -/
structure EmbeddingPreprocessor (K : Type) where
  sqrt : K → K
  pruner : ADSamplingPruner K

/-- `PreprocessEmbedding`; normalisation overwrites the input. -/
def EmbeddingPreprocessor.preprocessEmbedding (preprocessor : EmbeddingPreprocessor K)
    (normalize : Bool) (inputEmbedding : Nat → K) : Nat → K :=
  preprocessor.pruner.rotate
    (if normalize then
      normalizeQuery id preprocessor.sqrt preprocessor.pruner.numDimensions inputEmbedding
        inputEmbedding
    else inputEmbedding)

/-- `PreprocessEmbeddings`: the stores to the output buffer from cell `output` on. -/
def EmbeddingPreprocessor.preprocessEmbeddings (preprocessor : EmbeddingPreprocessor K)
    (normalize : Bool) (inputEmbeddings : Nat → Nat → K) (output numEmbeddings : Nat) :
    List (Nat × K) :=
  matrixStores output numEmbeddings preprocessor.pruner.numDimensions fun i =>
    preprocessor.preprocessEmbedding normalize (inputEmbeddings i)

end Preprocessor

/-- What the sinks use of the operator and the global state. -/
structure CreateIndex (K E D : Type) where
  preprocessor : EmbeddingPreprocessor K
  isNormalized : Bool
  ctx : BuildContext K E
  quantizationOf : QuantizationOf K E D

/-- `CreatePDXearchIndexLocalSinkState`, and the index that all threads share. -/
structure ParallelSinkState (K E D : Type) where
  rowGroupId : Nat
  rowGroup : EmbeddingBuffer K
  index : PDXearchWrapperParallel K E D

/-- `CreateGlobalPDXearchIndexGlobalSinkState` -/
structure GlobalSinkState (K E D : Type) where
  buffer : EmbeddingBuffer K
  index : PDXearchWrapperGlobal K E D

namespace CreateIndex

variable {K E D : Type} [Field K] [LinearOrder K] [Zero E] (op : CreateIndex K E D)

def numDimensions : Nat := op.preprocessor.pruner.numDimensions

/-- What becomes of an embedding before it is stored. -/
def preprocess : (Nat → K) → Nat → K := op.preprocessor.preprocessEmbedding op.isNormalized

/-- Append a chunk to a buffer. -/
def appendChunk (chunk : CreateChunk K) (buffer : EmbeddingBuffer K) : EmbeddingBuffer K where
  count := buffer.count + chunk.size
  embeddings := store (op.preprocessor.preprocessEmbeddings op.isNormalized
    chunk.embeddings.base.data (buffer.count * op.numDimensions) chunk.size) buffer.embeddings
  rowIds := store ((List.range chunk.size).map fun i =>
    (buffer.count + i, chunk.rowIds.flatten.data i)) buffer.rowIds

/-- Set up the index of the buffered row group. -/
def setUpRowGroup (s : ParallelSinkState K E D) : PDXearchWrapperParallel K E D :=
  s.index.setUpIndexForRowGroup op.ctx op.quantizationOf s.rowGroup.rowIds s.rowGroup.embeddings
    s.rowGroup.count s.rowGroupId

/-- `PhysicalCreatePDXearchIndex::Sink` -/
def sink (s : ParallelSinkState K E D) (chunk : CreateChunk K) : ParallelSinkState K E D :=
  if chunk.size = 0 then s
  else
    let rowGroupId := getRowGroupId (chunk.rowIds.get 0)
    let s :=
      if s.rowGroupId < rowGroupId ∧ 0 < s.rowGroup.count then
        { s with
          index := op.setUpRowGroup s
          rowGroup := { s.rowGroup with count := 0 } }
      else s
    { s with rowGroupId := rowGroupId, rowGroup := op.appendChunk chunk s.rowGroup }

/-- `PhysicalCreatePDXearchIndex::Combine` -/
def combine (s : ParallelSinkState K E D) : PDXearchWrapperParallel K E D :=
  if 0 < s.rowGroup.count then op.setUpRowGroup s else s.index

/-- `PhysicalCreateGlobalPDXearchIndex::Sink` -/
def sinkGlobal (s : GlobalSinkState K E D) (chunk : CreateChunk K) : GlobalSinkState K E D :=
  { s with buffer := op.appendChunk chunk s.buffer }

/-- `PhysicalCreateGlobalPDXearchIndex::Finalize`, its last steps. -/
def finalizeGlobal (s : GlobalSinkState K E D) : PDXearchWrapperGlobal K E D :=
  s.index.setUpGlobalIndex op.ctx op.quantizationOf s.buffer.rowIds s.buffer.embeddings
    s.buffer.count

/-! ## Alignment of the buffers -/

/-- Every buffered embedding is the preprocessed one of the row with the id at its position. -/
def Aligned (table : Nat → Nat → K) (buffer : EmbeddingBuffer K) : Prop :=
  ∀ p < buffer.count, ∀ d < op.numDimensions,
    buffer.embeddings (p * op.numDimensions + d) = op.preprocess (table (buffer.rowIds p)) d

/-- The arrays that the selection picks preprocess as those at the same positions of the base
vector, which are read in their place. -/
def ReadsSelected (chunk : CreateChunk K) : Prop :=
  ∀ i < chunk.size, ∀ d < op.numDimensions,
    op.preprocess (chunk.embeddings.base.data i) d = op.preprocess (chunk.embeddings.get i) d

omit [Zero E] in
theorem readsSelected_flat {chunk : CreateChunk K} {base : FlatVector (Nat → K)}
    (h : chunk.embeddings = .flat base) : op.ReadsSelected chunk := by
  intro i _ d _
  rw [h]
  rfl

variable {op} {table : Nat → Nat → K} {chunk : CreateChunk K} {buffer : EmbeddingBuffer K}

omit [Zero E] in
theorem appendChunk_embeddings_of_lt (chunk : CreateChunk K) {p d : Nat} (hp : p < buffer.count)
    (hd : d < op.numDimensions) :
    (op.appendChunk chunk buffer).embeddings (p * op.numDimensions + d) =
      buffer.embeddings (p * op.numDimensions + d) := by
  refine store_of_not_mem _ fun hmem => ?_
  rw [EmbeddingPreprocessor.preprocessEmbeddings, matrixStores_cells, List.mem_range'_1] at hmem
  have hnext : (p + 1) * op.numDimensions ≤ buffer.count * op.numDimensions :=
    Nat.mul_le_mul_right _ hp
  rw [Nat.add_mul] at hnext
  omega

omit [Zero E] in
theorem appendChunk_rowIds_of_lt {p : Nat} (hp : p < buffer.count) :
    (op.appendChunk chunk buffer).rowIds p = buffer.rowIds p := by
  refine store_of_not_mem _ fun hmem => ?_
  simp only [List.map_map, List.mem_map, List.mem_range, Function.comp_apply] at hmem
  obtain ⟨i, -, hi⟩ := hmem
  omega

omit [Zero E] in
theorem appendChunk_embeddings_add {i d : Nat} (hi : i < chunk.size) (hd : d < op.numDimensions) :
    (op.appendChunk chunk buffer).embeddings ((buffer.count + i) * op.numDimensions + d) =
      op.preprocess (chunk.embeddings.base.data i) d := by
  refine store_of_mem _ ?_ ?_
  · rw [EmbeddingPreprocessor.preprocessEmbeddings, matrixStores_cells]
    exact List.nodup_range'
  · rw [Nat.add_mul]
    exact mem_matrixStores _ _ hi hd

omit [Zero E] in
theorem appendChunk_rowIds_add {i : Nat} (hi : i < chunk.size) :
    (op.appendChunk chunk buffer).rowIds (buffer.count + i) = chunk.rowIds.get i := by
  refine store_of_mem _ ?_ (List.mem_map.mpr ⟨i, List.mem_range.mpr hi, rfl⟩)
  rw [List.map_map]
  exact List.nodup_range.map fun a b h => Nat.add_left_cancel h

omit [Zero E] in
/-- Appending a chunk keeps the buffer aligned if and only if the chunk reads what it selects. -/
theorem aligned_appendChunk_iff (hchunk : chunk.Holds table) :
    op.Aligned table (op.appendChunk chunk buffer) ↔
      op.Aligned table buffer ∧ op.ReadsSelected chunk := by
  constructor
  · intro h
    refine ⟨fun p hp d hd => ?_, fun i hi d hd => ?_⟩
    · have hp' : p < (op.appendChunk chunk buffer).count := Nat.lt_add_right _ hp
      rw [← appendChunk_embeddings_of_lt chunk hp hd, h p hp' d hd,
        appendChunk_rowIds_of_lt hp]
    · have hrow := h (buffer.count + i) (Nat.add_lt_add_left hi _) d hd
      rwa [appendChunk_embeddings_add hi hd, appendChunk_rowIds_add hi, ← hchunk i hi] at hrow
  · rintro ⟨hbuffer, hread⟩ p hp d hd
    by_cases hlt : p < buffer.count
    · rw [appendChunk_embeddings_of_lt chunk hlt hd, appendChunk_rowIds_of_lt hlt]
      exact hbuffer p hlt d hd
    · obtain ⟨i, rfl⟩ := Nat.exists_eq_add_of_le (not_lt.mp hlt)
      have hi : i < chunk.size := Nat.lt_of_add_lt_add_left hp
      rw [appendChunk_embeddings_add hi hd, appendChunk_rowIds_add hi, ← hchunk i hi]
      exact hread i hi d hd

/-- One call of the sink on an aligned buffer. -/
theorem aligned_sink_iff {s : ParallelSinkState K E D} (hs : op.Aligned table s.rowGroup)
    (hchunk : chunk.Holds table) :
    op.Aligned table (op.sink s chunk).rowGroup ↔ op.ReadsSelected chunk := by
  rw [sink]
  split
  · rename_i hempty
    exact iff_of_true hs fun i hi => absurd (hempty ▸ hi) (Nat.not_lt_zero i)
  · refine (aligned_appendChunk_iff hchunk).trans (and_iff_right ?_)
    split
    · -- the count starts again from zero: nothing is left of the buffer
      exact fun p hp => absurd hp (Nat.not_lt_zero p)
    · exact hs

omit [Zero E] in
theorem aligned_sinkGlobal_iff {s : GlobalSinkState K E D} (hs : op.Aligned table s.buffer)
    (hchunk : chunk.Holds table) :
    op.Aligned table (op.sinkGlobal s chunk).buffer ↔ op.ReadsSelected chunk :=
  (aligned_appendChunk_iff hchunk).trans (and_iff_right hs)

/-! ## Runs of the sinks -/

/-- The state that a thread starts in. -/
def initialParallelState (memory : EmbeddingBuffer K) (index : PDXearchWrapperParallel K E D) :
    ParallelSinkState K E D :=
  ⟨0, { memory with count := 0 }, index⟩

def initialGlobalState (memory : EmbeddingBuffer K) (index : PDXearchWrapperGlobal K E D) :
    GlobalSinkState K E D :=
  ⟨{ memory with count := 0 }, index⟩

/-- Over whole runs: the buffers are aligned after every chunk if and only if all chunks read what
they select. -/
theorem sinks_aligned_iff (op : CreateIndex K E D) (table : Nat → Nat → K)
    (chunks : List (CreateChunk K)) (hchunks : ∀ chunk ∈ chunks, chunk.Holds table)
    (memory : EmbeddingBuffer K) (index : PDXearchWrapperParallel K E D)
    (globalIndex : PDXearchWrapperGlobal K E D) :
    ((∀ pre, pre <+: chunks →
        op.Aligned table (pre.foldl op.sink (initialParallelState memory index)).rowGroup) ↔
      ∀ chunk ∈ chunks, op.ReadsSelected chunk) ∧
    ((∀ pre, pre <+: chunks →
        op.Aligned table (pre.foldl op.sinkGlobal (initialGlobalState memory globalIndex)).buffer) ↔
      ∀ chunk ∈ chunks, op.ReadsSelected chunk) := by
  constructor
  · refine foldl_prefix_iff (P := fun s : ParallelSinkState K E D => op.Aligned table s.rowGroup)
      (fun p hp => absurd hp (Nat.not_lt_zero p)) fun s hs chunk hmem => ?_
    exact aligned_sink_iff hs (hchunks chunk hmem)
  · refine foldl_prefix_iff (P := fun s : GlobalSinkState K E D => op.Aligned table s.buffer)
      (fun p hp => absurd hp (Nat.not_lt_zero p)) fun s hs chunk hmem => ?_
    exact aligned_sinkGlobal_iff hs (hchunks chunk hmem)

/-! ## A chunk with a NULL -/

/-- One dimension, not normalised, not rotated. -/
def oneDimensional : CreateIndex Rat Rat (ExactFloat Rat) where
  preprocessor := ⟨id, ⟨1, 0, fun _ => 1, fun _ => 1⟩⟩
  isNormalized := false
  ctx := .roundRobin Rat Rat
  quantizationOf := quantizationF32

/-- Rows 0 and 1 of a table; the embedding of row 0 is NULL, that of row 1 is `[1]`. -/
def nullFirst : CreateChunk Rat where
  size := 2
  embeddings := .flat ⟨fun i _ => i, fun i => i = 1⟩
  rowIds := .flat ⟨id, fun _ => true⟩

theorem nullFirst_holds : nullFirst.Holds fun r _ => (r : Rat) := fun _ _ => rfl

/-- The buffer is aligned after the flat chunk, before the filter. -/
theorem sinks_aligned_iff_flat :
    oneDimensional.ReadsSelected nullFirst ∧
      ∀ pre, pre <+: [nullFirst] → oneDimensional.Aligned (fun r _ => (r : Rat))
        (pre.foldl oneDimensional.sink
          (initialParallelState ⟨0, fun _ => 0, fun _ => 0⟩ ⟨⟨1, false, 0, fun _ => 1⟩, 1, 1,
            fun _ => none⟩)).rowGroup :=
  ⟨readsSelected_flat oneDimensional rfl,
    (sinks_aligned_iff oneDimensional (fun r _ => (r : Rat)) [nullFirst]
      (by simpa using nullFirst_holds) ⟨0, fun _ => 0, fun _ => 0⟩
      ⟨⟨1, false, 0, fun _ => 1⟩, 1, 1, fun _ => none⟩
      ⟨⟨1, false, 0, fun _ => 1⟩, 1, 2, fun _ => ⟨0, 0⟩, none⟩).1.mpr
      (by simpa using readsSelected_flat oneDimensional rfl)⟩

/-- The filter drops row 0, and both sinks store the array of row 0 under the id of row 1. -/
theorem sinks_not_aligned_nullFirst :
    nullFirst.filterNotNull.Holds (fun r _ => (r : Rat)) ∧
      ¬ oneDimensional.Aligned (fun r _ => (r : Rat))
        (oneDimensional.sink (initialParallelState ⟨0, fun _ => 0, fun _ => 0⟩
          ⟨⟨1, false, 0, fun _ => 1⟩, 1, 1, fun _ => none⟩) nullFirst.filterNotNull).rowGroup ∧
      ¬ oneDimensional.Aligned (fun r _ => (r : Rat))
        (oneDimensional.sinkGlobal (initialGlobalState ⟨0, fun _ => 0, fun _ => 0⟩
          ⟨⟨1, false, 0, fun _ => 1⟩, 1, 2, fun _ => ⟨0, 0⟩, none⟩) nullFirst.filterNotNull).buffer := by
  refine ⟨nullFirst_holds.filterNotNull, fun h => ?_, fun h => ?_⟩
  · exact absurd (h 0 (by decide) 0 (by decide)) (by decide +kernel)
  · exact absurd (h 0 (by decide) 0 (by decide)) (by decide +kernel)

end CreateIndex

end PDXearch
