import PDXearch.Create.Pipeline
import PDXearch.Index.RowDistances

/-!
# The index that the create pipeline leaves

When all threads of the pipeline have been combined, the index has been set up with the rows of the
table that have an embedding, each with its preprocessed embedding, however the rows were dealt out
to the threads and in whichever order the threads set their row groups up.
-/

namespace PDXearch

open Lib

/-- A call of `SetUpIndexForRowGroup` replaces what its row group was set up with. -/
def recordSetUp {K : Type} (rows : Nat → Option (EmbeddingBuffer K)) (call : SetUpCall K) :
    Nat → Option (EmbeddingBuffer K) :=
  Function.update rows call.rowGroupId (some call.rowGroup)

/-- Calls about different row groups. -/
theorem mem_foldl_recordSetUp {K : Type} {calls : List (SetUpCall K)}
    {rows : Nat → Option (EmbeddingBuffer K)} (hnodup : (calls.map SetUpCall.rowGroupId).Nodup)
    (hnone : ∀ call ∈ calls, rows call.rowGroupId = none) {g : Nat} {buffer : EmbeddingBuffer K} :
    buffer ∈ calls.foldl recordSetUp rows g ↔ buffer ∈ rows g ∨ ⟨g, buffer⟩ ∈ calls := by
  induction calls generalizing rows with
  | nil => simp
  | cons call calls ih =>
    obtain ⟨hnot, hrest⟩ := List.nodup_cons.mp hnodup
    have hne : ∀ other ∈ calls, other.rowGroupId ≠ call.rowGroupId := fun other hother heq =>
      hnot (heq ▸ List.mem_map_of_mem hother)
    have hnone' : ∀ other ∈ calls, recordSetUp rows call other.rowGroupId = none := by
      intro other hother
      rw [recordSetUp, Function.update_of_ne (hne other hother)]
      exact hnone other (List.mem_cons_of_mem _ hother)
    rw [List.foldl_cons, ih hrest hnone', List.mem_cons, ← or_assoc]
    refine or_congr_left ?_
    by_cases hg : g = call.rowGroupId
    · subst hg
      rw [recordSetUp, Function.update_self, hnone call List.mem_cons_self]
      constructor
      · intro hbuffer
        obtain rfl := Option.some.inj hbuffer
        exact Or.inr rfl
      · rintro (hbuffer | heq)
        · cases hbuffer
        · exact congrArg (fun call : SetUpCall K => some call.rowGroup) heq.symm
    · rw [recordSetUp, Function.update_of_ne hg]
      refine (or_iff_left fun heq => hg ?_).symm
      exact congrArg SetUpCall.rowGroupId heq

namespace CreateIndex

variable {K E D : Type} [Field K] [LinearOrder K] [Zero E] {op : CreateIndex K E D} {threads : Nat}

omit [LinearOrder K] in
theorem setUpWith_foldl {calls : List (SetUpCall K)} {w : PDXearchWrapperParallel K E D}
    {rows : Nat → Option (EmbeddingBuffer K)}
    (h : w.SetUpWith op.ctx op.quantizationOf rows)
    (hcalls : ∀ call ∈ calls, call.rowGroup.IsRowGroup op.ctx.kmeans w.numClustersPerRowGroup
      call.rowGroupId) :
    (calls.foldl op.setUp w).SetUpWith op.ctx op.quantizationOf (calls.foldl recordSetUp rows) := by
  induction calls generalizing w rows with
  | nil => exact h
  | cons call calls ih =>
    have hstep : (op.setUp w call).SetUpWith op.ctx op.quantizationOf (recordSetUp rows call) :=
      h.setUpIndexForRowGroup (hcalls call List.mem_cons_self)
    exact ih hstep fun other hother => hcalls other (List.mem_cons_of_mem _ hother)

omit [LinearOrder K] in
theorem toPDXearchWrapper_foldl_setUp (calls : List (SetUpCall K))
    (w : PDXearchWrapperParallel K E D) :
    (calls.foldl op.setUp w).toPDXearchWrapper = w.toPDXearchWrapper := by
  induction calls generalizing w with
  | nil => rfl
  | cons call calls ih => exact ih _

omit [LinearOrder K] in
/-- Each row group is one that a call of `SetUpIndexForRowGroup` has built. -/
theorem exists_eq_builtRowGroup {calls : List (SetUpCall K)} {w : PDXearchWrapperParallel K E D}
    (h : ∀ g, ∀ rowGroup ∈ w.rowGroups g, ∃ buffer : EmbeddingBuffer K, rowGroup =
      w.builtRowGroup op.ctx op.quantizationOf buffer.rowIds buffer.embeddings buffer.count)
    {g : Nat} {rowGroup : PDXRowGroup K E D}
    (hrowGroup : rowGroup ∈ (calls.foldl op.setUp w).rowGroups g) :
    ∃ buffer : EmbeddingBuffer K, rowGroup =
      w.builtRowGroup op.ctx op.quantizationOf buffer.rowIds buffer.embeddings buffer.count := by
  induction calls generalizing w with
  | nil => exact h g rowGroup hrowGroup
  | cons call calls ih =>
    have hstep : ∀ g, ∀ rowGroup ∈ (op.setUp w call).rowGroups g,
        ∃ buffer : EmbeddingBuffer K, rowGroup = (op.setUp w call).builtRowGroup op.ctx
          op.quantizationOf buffer.rowIds buffer.embeddings buffer.count := by
      intro g rowGroup hg
      change rowGroup ∈ Function.update w.rowGroups call.rowGroupId _ g at hg
      by_cases hgroup : g = call.rowGroupId
      · subst hgroup
        rw [Function.update_self] at hg
        exact ⟨call.rowGroup, (Option.some.inj hg).symm⟩
      · rw [Function.update_of_ne hgroup] at hg
        exact h g rowGroup hg
    have hlater := ih hstep hrowGroup
    exact hlater

/-! ## What the calls are given -/

/-- All rows that the threads are given, with their embeddings preprocessed. -/
def deliveredRows (op : CreateIndex K E D) (chunks : Fin threads → List (CreateChunk K)) :
    List op.Row :=
  (List.finRange threads).flatMap fun i => (chunks i).flatMap op.rows

variable {memory : Fin threads → EmbeddingBuffer K} {chunks : Fin threads → List (CreateChunk K)}
  {index : PDXearchWrapperParallel K E D} {table : Nat → Nat → K}

/-- Each call is given the rows of its row group with their preprocessed embeddings. -/
theorem isGrouping_setUpRows (op : CreateIndex K E D) (memory : Fin threads → EmbeddingBuffer K)
    (index : PDXearchWrapperParallel K E D) (h : Delivered (deliveredRowIds chunks))
    (hreads : ∀ i, ∀ chunk ∈ chunks i, op.ReadsSelected chunk) :
    IsGrouping rowGroupOf (op.deliveredRows chunks)
      ((op.allSetUps memory chunks index).map op.setUpRows) := by
  have hthread : ∀ i, IsGrouping rowGroupOf ((chunks i).flatMap op.rows)
      ((op.setUps (chunks i) (initialParallelState (memory i) index)).map op.setUpRows) := by
    intro i
    have hsetUps := op.setUps_isSortedGrouping (h.inOrder i) (memory i) index
    rw [flatMap_readRows_eq_iff.mpr (hreads i)] at hsetUps
    exact hsetUps.toIsGrouping
  have hids : ∀ i, ∀ row ∈ (chunks i).flatMap op.rows,
      row.1 ∈ (deliveredRowIds chunks i).flatten := by
    intro i row hrow
    obtain ⟨chunk, hchunk, hrow⟩ := List.mem_flatMap.mp hrow
    refine List.mem_flatten.mpr ⟨_, List.mem_map_of_mem hchunk, ?_⟩
    rw [← op.map_fst_rows]
    exact List.mem_map_of_mem hrow
  rw [allSetUps, List.map_flatMap]
  exact .flatMap (List.nodup_finRange threads) hthread fun i i' row hrow row' hrow' =>
    h.oneThread i i' row.1 (hids i row hrow) row'.1 (hids i' row' hrow')

omit [Zero E] in
/-- A delivered row has the embedding of the table. -/
theorem deliveredRows_eq (hholds : ∀ i, ∀ chunk ∈ chunks i, chunk.Holds table) {row : op.Row}
    (hrow : row ∈ op.deliveredRows chunks) (d : Fin op.numDimensions) :
    row.2 d = op.preprocess (table row.1) d := by
  obtain ⟨i, -, hrow⟩ := List.mem_flatMap.mp hrow
  obtain ⟨chunk, hchunk, hrow⟩ := List.mem_flatMap.mp hrow
  obtain ⟨j, hj, rfl⟩ := List.mem_map.mp hrow
  exact congrArg (fun embedding => op.preprocess embedding d)
    (hholds i chunk hchunk j (List.mem_range.mp hj))

/-- The calls that the threads make are about distinct rows of one row group each. -/
theorem isRowGroup_of_mem_allSetUps (h : Delivered (deliveredRowIds chunks)) {numClusters : Nat}
    (hkmeans : ∀ embeddings n, op.ctx.kmeans.InRange embeddings n numClusters) {call : SetUpCall K}
    (hcall : call ∈ op.allSetUps memory chunks index) :
    call.rowGroup.IsRowGroup op.ctx.kmeans numClusters call.rowGroupId := by
  have hids : bufferedRowIds call.rowGroup = _ :=
    (isGrouping_allSetUps op memory index h).items_eq _ (List.mem_map_of_mem hcall)
  have hnodup : (bufferedRowIds call.rowGroup).Nodup := by
    rw [hids]
    exact h.nodup.filter _
  refine ⟨fun e he e' he' heq => ?_, fun e he => ?_, hkmeans _ _⟩
  · exact (List.nodup_map_iff_inj_on List.nodup_range).mp hnodup e (List.mem_range.mpr he) e'
      (List.mem_range.mpr he') heq
  · have hmem : call.rowGroup.rowIds e ∈ bufferedRowIds call.rowGroup :=
      List.mem_map_of_mem (List.mem_range.mpr he)
    rw [hids] at hmem
    exact of_decide_eq_true (List.mem_filter.mp hmem).2

/-! ## The index of a table -/

/-- The index holds the rows `rowIds` of the table, each with its preprocessed embedding. -/
structure IndexesTable (op : CreateIndex K E D) (w : PDXearchWrapperParallel K E D)
    (rows : Nat → Option (EmbeddingBuffer K)) (table : Nat → Nat → K) (rowIds : List Nat) :
    Prop where
  setUpWith : w.SetUpWith op.ctx op.quantizationOf rows
  isRowOf_iff : ∀ r, IsRowOf rows r ↔ r ∈ rowIds
  embeddingOf_eq : ∀ r ∈ rowIds, ∀ d < op.numDimensions,
    embeddingOf rows op.numDimensions r d = op.preprocess (table r) d

section Calls

variable {calls : List (SetUpCall K)} {ids : List Nat}

omit [Field K] [LinearOrder K] in
theorem mem_recorded_iff
    (h : IsGrouping getRowGroupId ids
      (calls.map fun call => (call.rowGroupId, bufferedRowIds call.rowGroup)))
    {g : Nat} {buffer : EmbeddingBuffer K} :
    buffer ∈ calls.foldl recordSetUp (fun _ => none) g ↔ ⟨g, buffer⟩ ∈ calls := by
  have hnodup := h.nodup
  rw [List.map_map] at hnodup
  rw [mem_foldl_recordSetUp hnodup fun _ _ => rfl]
  exact or_iff_right nofun

omit [Field K] [LinearOrder K] in
/-- The rows that were recorded are those that the calls were given. -/
theorem isRowOf_recorded_iff
    (h : IsGrouping getRowGroupId ids
      (calls.map fun call => (call.rowGroupId, bufferedRowIds call.rowGroup))) (r : Nat) :
    IsRowOf (calls.foldl recordSetUp fun _ => none) r ↔ r ∈ ids := by
  constructor
  · rintro ⟨buffer, hbuffer, e, he, rfl⟩
    have hrow : buffer.rowIds e ∈ bufferedRowIds buffer :=
      List.mem_map_of_mem (List.mem_range.mpr he)
    have hitems : bufferedRowIds buffer = _ :=
      h.items_eq _ (List.mem_map_of_mem ((mem_recorded_iff h).mp hbuffer))
    rw [hitems] at hrow
    exact (List.mem_filter.mp hrow).1
  · intro hr
    obtain ⟨group, hgroup, hkey⟩ := List.mem_map.mp ((h.occurs (getRowGroupId r)).mpr ⟨r, hr, rfl⟩)
    have hitems := h.items_eq group hgroup
    obtain ⟨call, hcall, rfl⟩ := List.mem_map.mp hgroup
    have hmem : r ∈ bufferedRowIds call.rowGroup := by
      change bufferedRowIds call.rowGroup = _ at hitems
      rw [hitems]
      exact List.mem_filter.mpr ⟨hr, decide_eq_true hkey.symm⟩
    obtain ⟨e, he, rfl⟩ := List.mem_map.mp hmem
    have hcall' : (⟨getRowGroupId (call.rowGroup.rowIds e), call.rowGroup⟩ : SetUpCall K) ∈ calls :=
      hkey ▸ hcall
    exact ⟨call.rowGroup, (mem_recorded_iff h).mpr hcall', e, List.mem_range.mp he, rfl⟩

end Calls

variable {tr : CreateTrace K threads} {p : CreatePool K E D threads}

/-- The pipeline changes nothing but the slots. -/
theorem toPDXearchWrapper_of_run {base : PDXearchWrapper K} {n : Nat}
    (hnew : PDXearchWrapperParallel.new base n = some index)
    (h : Pool.Run op.setUpObj (op.pipeline memory chunks index) tr p) :
    p.shared.toPDXearchWrapper = base := by
  have hshared : p.shared = (tr.map fun e => e.2.1).foldl op.setUp index := h.shared_eq
  rw [hshared, toPDXearchWrapper_foldl_setUp]
  unfold PDXearchWrapperParallel.new at hnew
  split at hnew
  · cases hnew
  · obtain rfl := Option.some.inj hnew
    rfl

theorem indexesTable_of_run {base : PDXearchWrapper K} {n : Nat}
    (hnew : PDXearchWrapperParallel.new base n = some index)
    (hkmeans : ∀ embeddings n,
      op.ctx.kmeans.InRange embeddings n index.numClustersPerRowGroup)
    (hdelivered : Delivered (deliveredRowIds chunks))
    (hholds : ∀ i, ∀ chunk ∈ chunks i, chunk.Holds table)
    (hreads : ∀ i, ∀ chunk ∈ chunks i, op.ReadsSelected chunk)
    (h : Pool.Run op.setUpObj (op.pipeline memory chunks index) tr p) (hfinished : p.Finished) :
    ∃ rows, IndexesTable op p.shared rows table (filterResult (deliveredRowIds chunks)) := by
  have hperm := perm_allSetUps h hfinished
  have hshared : p.shared = (tr.map fun e => e.2.1).foldl op.setUp index := h.shared_eq
  generalize tr.map (fun e => e.2.1) = calls at hperm hshared
  have hids := (isGrouping_allSetUps op memory index hdelivered).perm (hperm.map _)
  have hrows := (isGrouping_setUpRows op memory index hdelivered hreads).perm (hperm.map _)
  have hgroup : ∀ call ∈ calls, call.rowGroup.IsRowGroup op.ctx.kmeans
      index.numClustersPerRowGroup call.rowGroupId := fun call hcall =>
    isRowGroup_of_mem_allSetUps hdelivered hkmeans (hperm.mem_iff.mp hcall)
  refine ⟨calls.foldl recordSetUp fun _ => none, ?_, isRowOf_recorded_iff hids, ?_⟩
  · rw [hshared]
    exact setUpWith_foldl (PDXearchWrapperParallel.setUpWith_new hnew _ _) hgroup
  · intro r hr d hd
    obtain ⟨buffer, hbuffer, e, he, rfl⟩ := (isRowOf_recorded_iff hids r).mpr hr
    have hcall := (mem_recorded_iff hids).mp hbuffer
    have hitems : op.bufferedRows buffer = _ := hrows.items_eq _ (List.mem_map_of_mem hcall)
    have hrow : (buffer.rowIds e, fun d : Fin op.numDimensions =>
        buffer.embeddings (e * op.numDimensions + d)) ∈ op.bufferedRows buffer :=
      List.mem_map_of_mem (List.mem_range.mpr he)
    rw [hitems] at hrow
    rw [embeddingOf_rowIds he hbuffer (hgroup _ hcall).distinct]
    exact deliveredRows_eq hholds (List.mem_filter.mp hrow).1 ⟨d, hd⟩

end CreateIndex

end PDXearch
