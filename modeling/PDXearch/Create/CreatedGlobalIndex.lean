import PDXearch.Create.DistanceMetric
import PDXearch.Create.SetUps
import PDXearch.Index.GlobalNearest

/-!
# The global index of a table

`PhysicalCreateGlobalPDXearchIndex` buffers the rows of the table and sets the index up in the end. The
slots of the index then hold the preprocessed embeddings of the rows, and a search turns its query into
one that is preprocessed in the same way.
-/

namespace PDXearch

open Lib ExactFloat

/-! ## Indexes that queries leave alone -/

section SameIndex

variable {K E D : Type}

/-- Indexes that differ at most in their pruners and in what queries leave behind. -/
structure PDXearchWrapperGlobal.SameIndex (w w' : PDXearchWrapperGlobal K E D) : Prop where
  toPDXearchWrapper_eq : w.toPDXearchWrapper = w'.toPDXearchWrapper
  numClusters_eq : w.numClusters = w'.numClusters
  rowIdClusterMapping_eq : w.rowIdClusterMapping = w'.rowIdClusterMapping
  searcher : Option.Rel Searcher.SameIndex w.searcher w'.searcher

theorem PDXearchWrapperGlobal.SameIndex.refl (w : PDXearchWrapperGlobal K E D) : w.SameIndex w := by
  refine ⟨rfl, rfl, rfl, ?_⟩
  cases w.searcher with
  | none => exact .none
  | some S => exact .some ⟨rfl, rfl⟩

theorem PDXearchWrapperGlobal.SetUpWith.of_sameIndex [Field K] [Zero E]
    {w w' : PDXearchWrapperGlobal K E D} {ctx : BuildContext K E} {Q : QuantizationOf K E D}
    {buffer : EmbeddingBuffer K} (h : w'.SetUpWith ctx Q buffer) (hsame : w.SameIndex w') :
    w.SetUpWith ctx Q buffer where
  distinct := h.distinct
  inRange := hsame.numClusters_eq ▸ h.inRange
  mapping_eq := by
    rw [hsame.rowIdClusterMapping_eq, h.mapping_eq]
    simp only [setUpGlobalIndex, hsame.toPDXearchWrapper_eq, hsame.numClusters_eq]
  sameIndex := by
    have hset := h.sameIndex
    have hsearcher := hsame.searcher
    simp only [setUpGlobalIndex, hsame.toPDXearchWrapper_eq, hsame.numClusters_eq] at hset ⊢
    revert hset hsearcher
    generalize w.searcher = a, w'.searcher = b
    rintro (hbc | _) (hab | _)
    exact .some ⟨hab.pdxData_eq.trans hbc.pdxData_eq,
      hab.clusterOffsets_eq.trans hbc.clusterOffsets_eq⟩

end SameIndex

theorem ADSamplingPruner.rotate_congr {K : Type} [Field K] {pruner pruner' : ADSamplingPruner K}
    (hdims : pruner.numDimensions = pruner'.numDimensions) (hmatrix : pruner.matrix = pruner'.matrix)
    {embedding embedding' : Nat → K}
    (hembedding : ∀ d < pruner.numDimensions, embedding d = embedding' d) :
    pruner.rotate embedding = pruner'.rotate embedding' := by
  funext row
  rw [ADSamplingPruner.rotate, ADSamplingPruner.rotate, ← hdims, ← hmatrix]
  exact Finset.sum_congr rfl fun col hcol => by rw [hembedding col (Finset.mem_range.mp hcol)]

/-- The searcher rotates as the pruner does, and prunes losslessly. -/
structure PDXearchWrapperGlobal.PrunesLosslessly {K E D : Type} [Field K] [LinearOrder K]
    (w : PDXearchWrapperGlobal K E D) (pruner : ADSamplingPruner K) : Prop where
  numDimensions_eq : ∀ S ∈ w.searcher, S.pruner.numDimensions = pruner.numDimensions
  matrix_eq : ∀ S ∈ w.searcher, S.pruner.matrix = pruner.matrix
  lossless : ∀ S ∈ w.searcher, S.pruner.Lossless

namespace CreateIndex

/-! ## The buffer -/

section Buffer

variable {K E D : Type} [Field K] [LinearOrder K] {op : CreateIndex K E D} {table : Nat → Nat → K}
  {chunks : List (CreateChunk K)}

theorem aligned_foldl_sinkGlobal {s : GlobalSinkState K E D} (hs : op.Aligned table s.buffer)
    (hchunks : ∀ chunk ∈ chunks, chunk.Holds table ∧ op.ReadsSelected chunk) :
    op.Aligned table (chunks.foldl op.sinkGlobal s).buffer := by
  induction chunks generalizing s with
  | nil => exact hs
  | cons chunk chunks ih =>
    obtain ⟨hholds, hreads⟩ := hchunks chunk List.mem_cons_self
    exact ih ((aligned_sinkGlobal_iff hs hholds).mpr hreads) fun other hother =>
      hchunks other (List.mem_cons_of_mem _ hother)

theorem bufferedRowIds_appendChunk (chunk : CreateChunk K) (buffer : EmbeddingBuffer K) :
    bufferedRowIds (op.appendChunk chunk buffer) = bufferedRowIds buffer ++ chunk.rowIdList := by
  have hrows : (op.bufferedRows (op.appendChunk chunk buffer)).map Prod.fst = _ :=
    congrArg (List.map Prod.fst) (bufferedRows_appendChunk chunk buffer)
  rw [List.map_append, map_fst_readRows] at hrows
  simpa only [bufferedRows, bufferedRowIds, List.map_map, Function.comp_def] using hrows

theorem bufferedRowIds_foldl_sinkGlobal (op : CreateIndex K E D) (chunks : List (CreateChunk K))
    (s : GlobalSinkState K E D) :
    bufferedRowIds (chunks.foldl op.sinkGlobal s).buffer =
      bufferedRowIds s.buffer ++ chunks.flatMap CreateChunk.rowIdList := by
  induction chunks generalizing s with
  | nil => exact (List.append_nil _).symm
  | cons chunk chunks ih =>
    rw [List.foldl_cons, ih, List.flatMap_cons, ← List.append_assoc]
    exact congrArg (· ++ _) (bufferedRowIds_appendChunk chunk s.buffer)

theorem index_foldl_sinkGlobal (op : CreateIndex K E D) (chunks : List (CreateChunk K))
    (s : GlobalSinkState K E D) :
    (chunks.foldl op.sinkGlobal s).index = s.index := by
  induction chunks generalizing s with
  | nil => rfl
  | cons chunk chunks ih => exact ih _

end Buffer

/-! ## The index -/

/-- A `CREATE INDEX` of the global implementation that has ended: `rowIds` are the rows of the table
that have an embedding, and `w` is the index. The clustering assigns every embedding to one of the
clusters, and the rotation of the index is that of the preprocessor. -/
structure CreatedGlobal {K E D : Type} [Field K] [LinearOrder K] [Zero E] (op : CreateIndex K E D)
    (metric : DistanceMetric) (table : Nat → Nat → K) (rowIds : List Nat)
    (w : PDXearchWrapperGlobal K E D) : Prop extends op.Orders metric table rowIds where
  run : ∃ (base : PDXearchWrapper K) (estimatedCardinality : Nat) (memory : EmbeddingBuffer K)
    (chunks : List (CreateChunk K)),
    base.numDimensions = op.numDimensions ∧ base.isNormalized = op.isNormalized ∧
    base.rotationMatrix = op.preprocessor.pruner.matrix ∧
    (∀ embeddings n, op.ctx.kmeans.InRange embeddings n
      (computeNumberOfClusters estimatedCardinality)) ∧
    (chunks.flatMap CreateChunk.rowIdList).Perm rowIds ∧
    (∀ chunk ∈ chunks, chunk.Holds table ∧ op.ReadsSelected chunk) ∧
    op.finalizeGlobal (chunks.foldl op.sinkGlobal
      (initialGlobalState memory (.new base estimatedCardinality))) = w

namespace CreatedGlobal

section Created

variable {K E D : Type} [Field K] [LinearOrder K] [Zero E] {op : CreateIndex K E D}
  {metric : DistanceMetric} {table : Nat → Nat → K} {rowIds : List Nat}
  {w w' : PDXearchWrapperGlobal K E D}

/-- The rows that the index was set up with are those of the table, with preprocessed embeddings. -/
theorem exists_buffer (h : op.CreatedGlobal metric table rowIds w) (hsame : w'.SameIndex w) :
    ∃ buffer, w'.SetUpWith op.ctx op.quantizationOf buffer ∧ (bufferedRowIds buffer).Perm rowIds ∧
      op.Aligned table buffer ∧ w'.numDimensions = op.numDimensions ∧
      w'.isNormalized = op.isNormalized := by
  obtain ⟨base, n, memory, chunks, hdims, hnormalized, -, hkmeans, hperm, hchunks, rfl⟩ := h.run
  have hindex := index_foldl_sinkGlobal op chunks
    (initialGlobalState memory (.new base n))
  have haligned : op.Aligned table (chunks.foldl op.sinkGlobal
      (initialGlobalState memory (.new base n))).buffer :=
    aligned_foldl_sinkGlobal (fun p hp => absurd hp (Nat.not_lt_zero p)) hchunks
  have hids := bufferedRowIds_foldl_sinkGlobal op chunks
    (initialGlobalState memory (.new base n))
  rw [show bufferedRowIds (initialGlobalState (E := E) (D := D) memory (.new base n)).buffer = []
    from rfl, List.nil_append] at hids
  generalize chunks.foldl op.sinkGlobal (initialGlobalState memory (.new base n)) = s at *
  obtain ⟨buffer, index⟩ := s
  subst hindex
  have hnodup : (bufferedRowIds buffer).Nodup := by
    rw [hids]
    exact hperm.nodup_iff.mpr h.nodup
  have hinj : ∀ e < buffer.count, ∀ e' < buffer.count,
      buffer.rowIds e = buffer.rowIds e' → e = e' := fun e he e' he' heq =>
    (List.nodup_map_iff_inj_on List.nodup_range).mp hnodup e (List.mem_range.mpr he) e'
      (List.mem_range.mpr he') heq
  have hset : ((PDXearchWrapperGlobal.new base n).setUpGlobalIndex op.ctx op.quantizationOf
      buffer.rowIds buffer.embeddings buffer.count).SetUpWith op.ctx op.quantizationOf buffer :=
    PDXearchWrapperGlobal.setUpWith_setUpGlobalIndex _ buffer hinj (hkmeans _ _)
  refine ⟨buffer, hset.of_sameIndex hsame, hids ▸ hperm, haligned, ?_, ?_⟩
  · exact (congrArg PDXearchWrapper.numDimensions hsame.toPDXearchWrapper_eq).trans hdims
  · exact (congrArg PDXearchWrapper.isNormalized hsame.toPDXearchWrapper_eq).trans hnormalized

end Created

/-! ## The searches -/

section Searches

variable {K E D : Type} [Field K] [LinearOrder K] [Zero E] {op : CreateIndex K E D}
  {metric : DistanceMetric} {table : Nat → Nat → K} {rowIds : List Nat}
  {w w' : PDXearchWrapperGlobal K E D} {query : Nat → K}

/-- The searcher, if the index can be searched. -/
theorem exists_searcher (h : op.CreatedGlobal metric table rowIds w) (hsame : w'.SameIndex w) :
    ∃ S, w'.searcher = some S ∧ S.pdxData.numDimensions = op.numDimensions ∧
      S.pdxData.isNormalized = op.isNormalized := by
  obtain ⟨buffer, hset, -, -, hdims, hnormalized⟩ := h.exists_buffer hsame
  obtain ⟨S, hS, hbuilt, -⟩ := hset.exists_rowsInSlots
  exact ⟨S, hS, (congrArg IndexPDXIVF.numDimensions hbuilt.pdxData_eq).trans hdims,
    (congrArg IndexPDXIVF.isNormalized hbuilt.pdxData_eq).trans hnormalized⟩

/-- All clusters are visited if the number of them to probe is zero, or not less than there are. -/
theorem isVisited_of_nProbe (h : op.CreatedGlobal metric table rowIds w) (hsame : w'.SameIndex w)
    (context : SearchContext K D) (query : Nat → K) {nProbe : Nat}
    (hprobe : nProbe = 0 ∨ w'.numClusters ≤ nProbe) {r : Nat} (hr : r ∈ rowIds) :
    w'.isVisited context query nProbe r = true := by
  obtain ⟨buffer, hset, hperm, -⟩ := h.exists_buffer hsame
  exact hset.isVisited_of_nProbe context query hprobe (hperm.mem_iff.mpr hr)

variable [IsStrictOrderedRing K]

/-- The pruner that the constructor sets up. -/
theorem prunesLosslessly_iff (h : op.CreatedGlobal metric table rowIds w)
    (hsqrt : IsSqrt op.ctx.sqrt) :
    w.PrunesLosslessly op.preprocessor.pruner ↔ op.numDimensions ≤ 6 := by
  obtain ⟨base, n, memory, chunks, hdims, -, hmatrix, -, -, -, rfl⟩ := h.run
  have hindex := index_foldl_sinkGlobal op chunks
    (initialGlobalState memory (.new base n))
  generalize chunks.foldl op.sinkGlobal (initialGlobalState memory (.new base n)) = s at *
  obtain ⟨buffer, index⟩ := s
  subst hindex
  have hlossless := ADSamplingPruner.lossless_new_iff (fun x => hsqrt.pos (x := x))
    (fun x hx => hsqrt.mul_self x hx.le) op.numDimensions base.rotationMatrix
  rw [← hdims] at hlossless ⊢
  constructor
  · intro hprunes
    exact hlossless.mp (hprunes.lossless _ rfl)
  · intro hfew
    refine ⟨fun S hS => ?_, fun S hS => ?_, fun S hS => ?_⟩ <;> obtain rfl := Option.some.inj hS
    · exact hdims
    · exact hmatrix
    · exact hlossless.mpr hfew

/-- A search preprocesses its query like the embeddings of the table. -/
theorem globalQuery_eq (h : op.CreatedGlobal metric table rowIds w)
    (hquery : metric.Defined op.numDimensions query) {S : Searcher K E D}
    (hdimsS : S.pdxData.numDimensions = op.numDimensions)
    (hnormalizedS : S.pdxData.isNormalized = op.isNormalized)
    (hdims : S.pruner.numDimensions = op.preprocessor.pruner.numDimensions)
    (hmatrix : S.pruner.matrix = op.preprocessor.pruner.matrix) (memory : Nat → K) :
    S.globalQuery id op.preprocessor.sqrt memory query = op.preprocess query := by
  unfold Searcher.globalQuery preprocess EmbeddingPreprocessor.preprocessEmbedding
    ADSamplingPruner.preprocessQuery
  rw [hdimsS, hnormalizedS]
  split_ifs with hnormalized
  · refine ADSamplingPruner.rotate_congr hdims hmatrix fun d hd => ?_
    have hdefined := hquery (h.isNormalized ▸ hnormalized)
    rw [hdims] at hd
    rw [normalizeQuery_apply, normalizeQuery_apply, if_pos ⟨hdefined, hd⟩, if_pos ⟨hdefined, hd⟩]
    rfl
  · exact ADSamplingPruner.rotate_congr hdims hmatrix fun _ _ => rfl

end Searches

section Nearest

variable {K : Type} [Field K] [LinearOrder K] [IsStrictOrderedRing K]
  {op : CreateIndex K K (ExactFloat K)} {metric : DistanceMetric} {table : Nat → Nat → K}
  {rowIds : List Nat} {w w' : PDXearchWrapperGlobal K K (ExactFloat K)}
  {context : SearchContext K (ExactFloat K)} {query : Nat → K}

theorem searchesWith (h : op.CreatedGlobal metric table rowIds w) (hsame : w'.SameIndex w)
    (hprunes : w'.PrunesLosslessly op.preprocessor.pruner)
    (hquery : metric.Defined op.numDimensions query)
    (hcontext : context.sqrt = op.preprocessor.sqrt) :
    w'.SearchesWith context query (op.preprocess query) := by
  obtain ⟨S', hS', hdims, hnormalized⟩ := h.exists_searcher hsame
  refine ⟨fun S hS => ?_, hprunes.lossless, fun S hS => ?_⟩ <;>
    obtain rfl := Option.some.inj (hS'.symm.trans hS)
  · exact (hprunes.numDimensions_eq _ hS).trans hdims.symm
  · rw [hcontext]
    exact h.globalQuery_eq hquery hdims hnormalized (hprunes.numDimensions_eq _ hS)
      (hprunes.matrix_eq _ hS) context.memory

omit [IsStrictOrderedRing K] in
/-- The distance by which the index orders rows, in terms of the buffer. -/
theorem indexDistance_rowIds (h : op.CreatedGlobal metric table rowIds w)
    {buffer : EmbeddingBuffer K} (haligned : op.Aligned table buffer) (query : Nat → K) {e : Nat}
    (he : e < buffer.count) :
    op.preprocessor.indexDistance metric query (table (buffer.rowIds e)) =
      ∑ d ∈ Finset.range op.numDimensions,
        (op.preprocess query d - buffer.embeddings (e * op.numDimensions + d)) ^ 2 := by
  rw [EmbeddingPreprocessor.indexDistance, ← h.isNormalized]
  refine Finset.sum_congr rfl fun d hd => ?_
  rw [haligned e he d (Finset.mem_range.mp hd)]
  rfl

variable (H : Type) [Heap H K]

/-- A search finds something, and it finds the nearest rows of the visited clusters exactly when the
cut is harmless. -/
theorem search_nearest_iff (h : op.CreatedGlobal metric table rowIds w)
    (hf32 : op.quantizationOf = quantizationF32) (hsame : w'.SameIndex w)
    (hprunes : w'.PrunesLosslessly op.preprocessor.pruner)
    (hquery : metric.Defined op.numDimensions query)
    (hcontext : context.sqrt = op.preprocessor.sqrt) (hlt : ∀ r ∈ rowIds, r < 2 ^ 32)
    {limit : Nat} (hk : 0 < limit) (nProbe : Nat) :
    ∃ result, w'.search H context query limit nProbe = some result ∧
      (w'.FindsNearest context query nProbe
          (fun r => op.preprocessor.indexDistance metric query (table r)) limit rowIds result ↔
        w'.CutsHarmlessly context query nProbe
          (fun r => op.preprocessor.indexDistance metric query (table r)) limit rowIds) := by
  obtain ⟨buffer, hset, hperm, haligned, hdims, -⟩ := h.exists_buffer hsame
  rw [hf32] at hset
  obtain ⟨S, hS, -⟩ := hset.exists_rowsInSlots
  have hresult : ∃ result, w'.search H context query limit nProbe = some result :=
    ⟨_, by rw [PDXearchWrapperGlobal.search, hS, Option.map_some]⟩
  obtain ⟨result, hresult⟩ := hresult
  have hiff : w'.FindsNearest context query nProbe
      (fun r => op.preprocessor.indexDistance metric query (table r)) limit _ result ↔ _ :=
    hset.search_nearest_iff H (h.searchesWith hsame hprunes hquery hcontext)
      (fun e he => by rw [hdims]; exact h.indexDistance_rowIds haligned query he)
      (fun r hr => hlt r (hperm.mem_iff.mp hr)) hk nProbe hresult
  rw [PDXearchWrapperGlobal.findsNearest_perm hperm,
    PDXearchWrapperGlobal.cutsHarmlessly_perm hperm] at hiff
  exact ⟨result, hresult, hiff⟩

/-- The same of the passing rows, in whichever vectors they come. -/
theorem filteredSearch_nearest_iff (h : op.CreatedGlobal metric table rowIds w)
    (hf32 : op.quantizationOf = quantizationF32) (hsame : w'.SameIndex w)
    (hprunes : w'.PrunesLosslessly op.preprocessor.pruner)
    (hquery : metric.Defined op.numDimensions query)
    (hcontext : context.sqrt = op.preprocessor.sqrt) {passing : List Nat} (hnodup : passing.Nodup)
    (hsub : ∀ r ∈ passing, r ∈ rowIds) (hlt : ∀ r ∈ passing, r < 2 ^ 32) {limit : Nat}
    (hk : 0 < limit) (nProbe : Nat) :
    ∃ result, (∀ rowIdVectors, (emittedRowIds rowIdVectors).Perm passing →
        w'.filteredSearch H context query limit nProbe rowIdVectors = some result) ∧
      Fills (C := Nat) limit (passing.filter (w'.isVisited context query nProbe)) 0 result ∧
      (w'.FindsNearest context query nProbe
          (fun r => op.preprocessor.indexDistance metric query (table r)) limit passing result ↔
        w'.CutsHarmlessly context query nProbe
          (fun r => op.preprocessor.indexDistance metric query (table r)) limit passing) := by
  obtain ⟨buffer, hset, hperm, haligned, hdims, -⟩ := h.exists_buffer hsame
  rw [hf32] at hset
  obtain ⟨S, hS, hbuilt, -⟩ := hset.exists_rowsInSlots
  have hindexed : ∀ r ∈ passing, r ∈ bufferedRowIds buffer := fun r hr =>
    hperm.mem_iff.mpr (hsub r hr)
  obtain ⟨result, hresult, hfills⟩ := hset.filteredSearch_fills H (fun S' hS' => by
    obtain rfl := Option.some.inj (hS.symm.trans hS')
    exact measured_f32 (congrArg IndexPDXIVF.quantization hbuilt.pdxData_eq)) hnodup hindexed hlt
      context query hk nProbe
  obtain ⟨rowIdVectors, hvectors⟩ := exists_rowIdVectors passing
  refine ⟨result, hresult, hfills, ?_⟩
  exact hset.filteredSearch_nearest_iff H (h.searchesWith hsame hprunes hquery hcontext)
    (fun e he => by rw [hdims]; exact h.indexDistance_rowIds haligned query he) hnodup hindexed hlt hk
    nProbe (List.Perm.of_eq hvectors) (hresult _ (List.Perm.of_eq hvectors))

end Nearest

end CreatedGlobal

end CreateIndex

end PDXearch
