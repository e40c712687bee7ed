import PDXearch.Create.CreatedIndex
import PDXearch.Create.DistanceMetric
import PDXearch.Optimizer.Plan
import PDXearch.Scan.ApproximateScan

/-!
# Queries on an indexed table

From `CREATE INDEX` to the rows that a query gets: whichever threads built the row groups in
whichever order, and however the tasks of a scan interleave, the operators emit the row ids of rows
that the index scans of a plan may produce, the nearest by the distance function of the query.
-/

namespace PDXearch

open Lib ExactFloat

/-! ## An index that was created for a table -/

section Created

variable {K E D : Type} [Field K] [LinearOrder K]

/-- Indexes that differ at most in their pruners and in what queries leave behind. -/
structure PDXearchWrapperParallel.SameIndex (w w' : PDXearchWrapperParallel K E D) :
    Prop where
  toPDXearchWrapper_eq : w.toPDXearchWrapper = w'.toPDXearchWrapper
  numClustersPerRowGroup_eq : w.numClustersPerRowGroup = w'.numClustersPerRowGroup
  rowGroups : ∀ g, Option.Rel PDXRowGroup.SameIndex (w.rowGroups g) (w'.rowGroups g)

omit [Field K] [LinearOrder K] in
theorem PDXearchWrapperParallel.SameIndex.refl (w : PDXearchWrapperParallel K E D) :
    w.SameIndex w := by
  refine ⟨rfl, rfl, fun g => ?_⟩
  cases w.rowGroups g with
  | none => exact .none
  | some rowGroup => exact .some ⟨rfl, rfl, rfl⟩

omit [LinearOrder K] in
theorem PDXearchWrapperParallel.SetUpWith.of_sameIndex [Zero E]
    {w w' : PDXearchWrapperParallel K E D} {ctx : BuildContext K E} {Q : QuantizationOf K E D}
    {rows : Nat → Option (EmbeddingBuffer K)} (h : w'.SetUpWith ctx Q rows)
    (hsame : w.SameIndex w') : w.SetUpWith ctx Q rows := by
  have hbuilt : ∀ buffer : EmbeddingBuffer K,
      w.builtRowGroup ctx Q buffer.rowIds buffer.embeddings buffer.count =
        w'.builtRowGroup ctx Q buffer.rowIds buffer.embeddings buffer.count := by
    intro buffer
    simp only [builtRowGroup, hsame.toPDXearchWrapper_eq, hsame.numClustersPerRowGroup_eq]
  refine ⟨fun g buffer hbuffer => ?_, fun g => ?_⟩
  · rw [hsame.numClustersPerRowGroup_eq]
    exact h.isRowGroup g buffer hbuffer
  · have hset := h.sameIndex g
    have hgroup := hsame.rowGroups g
    simp only [hbuilt]
    generalize (rows g).map _ = built at hset ⊢
    revert hgroup hset
    generalize w.rowGroups g = a, w'.rowGroups g = b
    rintro (hab | _) (hbc | _)
    · exact .some ⟨hab.rowIdMetadata_eq.trans hbc.rowIdMetadata_eq,
        hab.pdxData_eq.trans hbc.pdxData_eq, hab.clusterOffsets_eq.trans hbc.clusterOffsets_eq⟩
    · exact .none

/-- A `CREATE INDEX` that has ended: `rowIds` are the rows of the table that have an embedding, and
`w` is the index that the threads of the pipeline have left. The clustering assigns every embedding
to one of the clusters. -/
structure CreateIndex.Created [Zero E] (op : CreateIndex K E D) (metric : DistanceMetric)
    (table : Nat → Nat → K) (rowIds : List Nat) (w : PDXearchWrapperParallel K E D) : Prop where
  isNormalized : op.isNormalized = distanceMetricRequiresNormalization metric
  sqrt : IsSqrt op.preprocessor.sqrt
  orthogonal : op.preprocessor.pruner.Orthogonal
  defined : ∀ r ∈ rowIds, metric.Defined op.numDimensions (table r)
  run : ∃ (base : PDXearchWrapper K) (n threads : Nat)
    (index : PDXearchWrapperParallel K E D)
    (memory : Fin threads → EmbeddingBuffer K) (chunks : Fin threads → List (CreateChunk K))
    (tr : CreateTrace K threads) (p : CreatePool K E D threads),
    base.numDimensions = op.numDimensions ∧ PDXearchWrapperParallel.new base n = some index ∧
    (∀ embeddings n, op.ctx.kmeans.InRange embeddings n index.numClustersPerRowGroup) ∧
    Delivered (deliveredRowIds chunks) ∧ (filterResult (deliveredRowIds chunks)).Perm rowIds ∧
    (∀ i, ∀ chunk ∈ chunks i, chunk.Holds table ∧ op.ReadsSelected chunk) ∧
    Pool.Run op.setUpObj (op.pipeline memory chunks index) tr p ∧ p.Finished ∧ p.shared = w

/-- The value of the distance function for a row of the table. -/
def CreateIndex.queryDistance (op : CreateIndex K E D) (kernel : DistanceOp K)
    (query : Nat → K) (table : Nat → Nat → K) (rowId : Nat) : K :=
  kernel op.preprocessor.sqrt query (table rowId) op.numDimensions

namespace CreateIndex.Created

variable [Zero E] {op : CreateIndex K E D} {metric : DistanceMetric} {table : Nat → Nat → K}
  {rowIds : List Nat} {w w' : PDXearchWrapperParallel K E D}

theorem nodup (h : op.Created metric table rowIds w) : rowIds.Nodup := by
  obtain ⟨_, _, _, _, _, _, _, _, _, _, _, hdelivered, hperm, -⟩ := h.run
  exact hperm.nodup_iff.mp hdelivered.nodup

theorem orders (h : op.Created metric table rowIds w) : op.Orders metric table rowIds :=
  ⟨h.isNormalized, h.sqrt, h.orthogonal, h.defined, h.nodup⟩

/-- The rows that the index was set up with are those of the table, with preprocessed embeddings. -/
theorem exists_rows (h : op.Created metric table rowIds w) (hsame : w'.SameIndex w) :
    ∃ rows, w'.SetUpWith op.ctx op.quantizationOf rows ∧ (∀ r, IsRowOf rows r ↔ r ∈ rowIds) ∧
      w'.numDimensions = op.numDimensions ∧ ∀ r ∈ rowIds, ∀ d < op.numDimensions,
        embeddingOf rows op.numDimensions r d = op.preprocess (table r) d := by
  obtain ⟨base, n, threads, index, memory, chunks, tr, p, hdims, hnew, hkmeans, hdelivered, hperm,
    hchunks, hrun, hfinished, rfl⟩ := h.run
  obtain ⟨rows, hset, hrows, hembedding⟩ := indexesTable_of_run hnew hkmeans hdelivered
    (fun i chunk hchunk => (hchunks i chunk hchunk).1)
    (fun i chunk hchunk => (hchunks i chunk hchunk).2) hrun hfinished
  refine ⟨rows, hset.of_sameIndex hsame, fun r => (hrows r).trans hperm.mem_iff, ?_,
    fun r hr d hd => ?_⟩
  · rw [hsame.toPDXearchWrapper_eq, toPDXearchWrapper_of_run hnew hrun, hdims]
  · exact hembedding r (hperm.mem_iff.mpr hr) d hd

/-- The distances of these rows are those of the preprocessed embeddings of the table. -/
theorem rowDistance_eq (h : op.Created metric table rowIds w)
    {rows : Nat → Option (EmbeddingBuffer K)} (hembedding : ∀ r ∈ rowIds, ∀ d < op.numDimensions,
      embeddingOf rows op.numDimensions r d = op.preprocess (table r) d) (query : Nat → K) {r : Nat}
    (hr : r ∈ rowIds) : rowDistance rows op.numDimensions (op.preprocess query) r =
      op.preprocessor.indexDistance metric query (table r) := by
  rw [rowDistance, EmbeddingPreprocessor.indexDistance, ← h.isNormalized]
  refine Finset.sum_congr rfl fun d hd => ?_
  rw [hembedding r hr d (Finset.mem_range.mp hd)]
  rfl

/-- Every row group is pruned as the constructor of the pruner sets it up. -/
theorem exists_pruner_eq (h : op.Created metric table rowIds w) {g : Nat}
    {rowGroup : PDXRowGroup K E D} (hrowGroup : rowGroup ∈ w.rowGroups g) :
    (∃ matrix, rowGroup.searcher.pruner =
        ADSamplingPruner.new op.ctx.sqrt op.numDimensions matrix) ∧
      rowGroup.searcher.pdxData.numDimensions = op.numDimensions := by
  obtain ⟨base, n, threads, index, memory, chunks, tr, p, hdims, hnew, -, -, -, -, hrun, -, rfl⟩ :=
    h.run
  have hindex : p.shared.toPDXearchWrapper = base := toPDXearchWrapper_of_run hnew hrun
  have hshared : p.shared = (tr.map fun e => e.2.1).foldl op.setUp index := hrun.shared_eq
  rw [hshared] at hrowGroup hindex
  rw [toPDXearchWrapper_foldl_setUp] at hindex
  have hempty : ∀ g, ∀ rowGroup ∈ index.rowGroups g, ∃ buffer : EmbeddingBuffer K, rowGroup =
      index.builtRowGroup op.ctx op.quantizationOf buffer.rowIds buffer.embeddings buffer.count := by
    intro g rowGroup hg
    rw [(PDXearchWrapperParallel.new_spec hnew).2.2.2 g] at hg
    cases hg
  obtain ⟨buffer, rfl⟩ := exists_eq_builtRowGroup hempty hrowGroup
  rw [← hdims, ← hindex]
  exact ⟨⟨index.rotationMatrix, rfl⟩, rfl⟩

/-- An unfiltered scan of the index can be started. -/
theorem scannable (h : op.Created metric table rowIds w) (hsame : w'.SameIndex w)
    (hfilled : w'.Filled) (hslots : ∀ r ∈ rowIds, getRowGroupId r < w'.numRowGroups)
    (hlt : ∀ r ∈ rowIds, r < 2 ^ 32) (hfit : ∀ g, ∀ rowGroup ∈ w'.rowGroups g,
      rowGroup.searcher.pruner.numDimensions = rowGroup.searcher.pdxData.numDimensions) :
    w'.Scannable op.ctx op.quantizationOf rowIds where
  setUpWith := by
    obtain ⟨rows, hset, hrows, -, -⟩ := h.exists_rows hsame
    exact ⟨rows, hset, hrows⟩
  filled := hfilled
  hasSlot := hslots
  lt := hlt
  pruner_numDimensions := hfit

end CreateIndex.Created

end Created

/-! ## The index scans of a plan -/

section Plans

variable {K E D X Q : Type} [Field K] [LinearOrder K] [Inhabited X]

/-- How a plan sees the table: the rows `rowIds` are at the distance that the distance function of the
query gives, the others have none. -/
structure CreateIndex.PlansQuery (op : CreateIndex K E D) (kernel : DistanceOp K)
    (query : Nat → K) (table : Nat → Nat → K) (rowIds : List Nat) (values : Values X K)
    (tbl : Table X Q K) (bindData : ScanBindData X Q K) : Prop where
  hasRow : ∀ r ∈ rowIds, r ∈ tbl.rows.map TableRow.rowId
  distance_eq : ∀ row ∈ tbl.rows, bindData.distance values row =
    if row.rowId ∈ rowIds then (op.queryDistance kernel query table row.rowId : WithTop K) else ⊤

namespace CreateIndex

variable [Zero E] [IsStrictOrderedRing K] {op : CreateIndex K E D} {metric : DistanceMetric}
  {table : Nat → Nat → K} {rowIds : List Nat} {w w' : PDXearchWrapperParallel K E D}
  {kernel : DistanceOp K} {query : Nat → K} {values : Values X K} {tbl : Table X Q K}
  {bindData : ScanBindData X Q K}

omit [Inhabited X] [Zero E] in
/-- The nearest of some rows by the distances of the index are the nearest by the distance that the
plan orders by. -/
theorem Orders.exists_hits (h : op.Orders metric table rowIds) (hkernel : metric.IsKernel kernel)
    (hquery : metric.Defined op.numDimensions query)
    (hplans : op.PlansQuery kernel query table rowIds values tbl bindData) {distance : Nat → K}
    (hdistance : ∀ r ∈ rowIds, distance r = op.preprocessor.indexDistance metric query (table r))
    (p : Nat → Bool) {out : List Nat}
    (hsmallest : IsKSmallest distance bindData.limit (rowIds.filter p) out)
    (hsorted : out.Pairwise fun r r' => distance r ≤ distance r') :
    ∃ hits : List (TableRow X), IsNearest (bindData.distance values) bindData.limit
        (tbl.rows.filter fun row => p row.rowId) hits ∧ out = hits.map TableRow.rowId := by
  let key : Nat → WithTop K := fun r =>
    if r ∈ rowIds then (op.queryDistance kernel query table r : WithTop K) else ⊤
  have hle : ∀ r ∈ rowIds.filter p, ∀ r' ∈ rowIds.filter p,
      distance r ≤ distance r' → key r ≤ key r' := by
    intro r hr r' hr' hrr
    have hr := List.mem_of_mem_filter hr
    have hr' := List.mem_of_mem_filter hr'
    rw [hdistance r hr, hdistance r' hr'] at hrr
    simp only [key, if_pos hr, if_pos hr', WithTop.coe_le_coe]
    exact (indexDistance_le_iff h.sqrt h.orthogonal hkernel hquery (h.defined r hr)
      (h.defined r' hr')).mp hrr
  have hmem : ∀ r ∈ out, r ∈ rowIds.filter p := fun r hr =>
    Multiset.mem_coe.mp (Multiset.mem_of_le hsmallest.le (Multiset.mem_coe.mpr hr))
  have hfilter : (((tbl.rows.filter fun row => p row.rowId : List (TableRow X)) :
      Multiset (TableRow X)).map TableRow.rowId).filter (fun r => key r ≠ ⊤) =
        (rowIds.filter p : Multiset Nat) := by
    have hids : (tbl.rows.filter fun row => p row.rowId).map TableRow.rowId =
        (tbl.rows.map TableRow.rowId).filter p := by
      rw [List.filter_map]
      rfl
    rw [Multiset.map_coe, hids, Multiset.filter_coe, Multiset.coe_eq_coe]
    refine (List.perm_ext_iff_of_nodup ((tbl.nodup.filter _).filter _) (h.nodup.filter _)).mpr
      fun r => ?_
    simp only [List.mem_filter, decide_eq_true_eq]
    constructor
    · rintro ⟨⟨hr, hp⟩, hne⟩
      refine ⟨?_, hp⟩
      by_contra hnot
      exact hne (if_neg hnot)
    · rintro ⟨hr, hp⟩
      refine ⟨⟨hplans.hasRow r hr, hp⟩, ?_⟩
      simp only [key, if_pos hr]
      exact WithTop.coe_ne_top
  have hnearest : IsNearest key bindData.limit
      (((tbl.rows.filter fun row => p row.rowId : List (TableRow X)) :
        Multiset (TableRow X)).map TableRow.rowId) out := by
    refine isNearest_of_isKSmallest ?_ (hsorted.imp_of_mem fun hr hr' hrr =>
      hle _ (hmem _ hr) _ (hmem _ hr') hrr)
    rw [hfilter]
    exact hsmallest.congr_key hle
  refine (isNearest_map_iff fun row hrow => ?_).mp hnearest
  exact (hplans.distance_eq row (List.mem_of_mem_filter (Multiset.mem_coe.mp hrow))).symm

omit [Field K] [Inhabited X] [Zero E] [IsStrictOrderedRing K] in
/-- Rows without a distance do not matter. -/
theorem PlansQuery.isNearest_filter_congr
    (hplans : op.PlansQuery kernel query table rowIds values tbl bindData) {p q : Nat → Bool}
    (hpq : ∀ r ∈ rowIds, p r = q r) {L : Nat} {hits : List (TableRow X)}
    (hnearest : IsNearest (bindData.distance values) L
      (tbl.rows.filter fun row => p row.rowId) hits) :
    IsNearest (bindData.distance values) L (tbl.rows.filter fun row => q row.rowId) hits := by
  rw [← isNearest_filter] at hnearest ⊢
  have hsame : ((tbl.rows.filter fun row => p row.rowId : List (TableRow X)) :
        Multiset (TableRow X)).filter (fun row => bindData.distance values row ≠ ⊤) =
      ((tbl.rows.filter fun row => q row.rowId : List (TableRow X)) :
        Multiset (TableRow X)).filter fun row => bindData.distance values row ≠ ⊤ := by
    rw [Multiset.filter_coe, Multiset.filter_coe, List.filter_filter, List.filter_filter]
    refine congrArg _ (List.filter_congr fun row hrow => ?_)
    by_cases hrowId : row.rowId ∈ rowIds
    · rw [hpq _ hrowId]
    · simp [hplans.distance_eq row hrow, hrowId]
  rwa [hsame] at hnearest

end CreateIndex

end Plans

/-! ## A table of two full row groups -/

section Line

/-- The rows of two full row groups. -/
def lineRowIds : List Nat := List.range (2 * defaultRowGroupSize)

theorem mem_lineRowIds_iff {r : Nat} : r ∈ lineRowIds ↔ r < 2 * defaultRowGroupSize :=
  List.mem_range

theorem nodup_lineRowIds : lineRowIds.Nodup := List.nodup_range

theorem length_lineRowIds : lineRowIds.length = 2 * defaultRowGroupSize := List.length_range

theorem lineRowIds_eq_range' : lineRowIds = List.range' 0 (2 * defaultRowGroupSize) :=
  List.range_eq_range'

-- the list is never to be written out
attribute [irreducible] lineRowIds

theorem getRowGroupId_lt_of_mem_lineRowIds {r : Nat} (hr : r ∈ lineRowIds) :
    getRowGroupId r < 2 := by
  rw [mem_lineRowIds_iff, defaultRowGroupSize] at hr
  rw [getRowGroupId, defaultRowGroupSize]
  omega

theorem lt_of_mem_lineRowIds : ∀ r ∈ lineRowIds, r < 2 ^ 32 := by
  intro r hr
  rw [mem_lineRowIds_iff, defaultRowGroupSize] at hr
  omega

variable {K E D : Type} [Field K] [LinearOrder K] [Zero E]

/-- `CREATE INDEX` for embeddings of dimension one. -/
def lineIndex {E D : Type} [Zero E] (Q : QuantizationOf K E D) (sqrt : K → K) :
    CreateIndex K E D where
  preprocessor := ⟨sqrt, ⟨1, 0, fun _ => 1, fun _ => 1⟩⟩
  isNormalized := false
  ctx := { BuildContext.roundRobin K E with sqrt := sqrt }
  quantizationOf := Q

/-- The embedding of a row is its position in its row group. -/
def lineTable (K : Type) [Field K] (rowId _ : Nat) : K := (rowId % defaultRowGroupSize : Nat)

/-- A full chunk of consecutive rows. -/
def lineChunk (firstRow : Nat) : CreateChunk K where
  size := standardVectorSize
  embeddings := .flat ⟨fun i => lineTable K (firstRow + i), fun _ => true⟩
  rowIds := .flat ⟨fun i => firstRow + i, fun _ => true⟩

/-- The chunks of a row group. -/
def lineChunks (K : Type) [Field K] (g : Nat) : List (CreateChunk K) :=
  (List.range 60).map fun j => lineChunk (g * defaultRowGroupSize + j * standardVectorSize)

omit [LinearOrder K] in
theorem flatMap_rowIdList_lineChunks (g : Nat) :
    (lineChunks K g).flatMap CreateChunk.rowIdList =
      List.range' (g * defaultRowGroupSize) defaultRowGroupSize := by
  have hids : ∀ firstRow, (lineChunk (K := K) firstRow).rowIdList =
      List.range' firstRow standardVectorSize := fun firstRow => by
    rw [List.range'_eq_map_range]
    rfl
  simp only [lineChunks, List.flatMap_map, hids]
  exact flatMap_range' _ _ 60

omit [Zero E] in
theorem holds_lineChunk {op : CreateIndex K E D} {g : Nat} {chunk : CreateChunk K}
    (hchunk : chunk ∈ lineChunks K g) : chunk.Holds (lineTable K) ∧ op.ReadsSelected chunk := by
  obtain ⟨j, -, rfl⟩ := List.mem_map.mp hchunk
  exact ⟨fun _ _ => rfl, op.readsSelected_flat rfl⟩

omit [LinearOrder K] in
/-- Each thread is given a row group. -/
theorem delivered_line : Delivered (deliveredRowIds fun i : Fin 2 => lineChunks K i) := by
  refine .of_rowGroups (fun i => ?_) fun i r hr => ?_
  · rw [deliveredRowIds, ← List.flatMap_def, flatMap_rowIdList_lineChunks]
    exact List.nodup_range'
  · rw [deliveredRowIds, ← List.flatMap_def, flatMap_rowIdList_lineChunks, List.mem_range'_1] at hr
    rw [getRowGroupId]
    simp only [defaultRowGroupSize] at hr ⊢
    omega

omit [LinearOrder K] in
theorem filterResult_line :
    filterResult (deliveredRowIds fun i : Fin 2 => lineChunks K i) = lineRowIds := by
  have hgroup : ∀ i, (deliveredRowIds (fun i : Fin 2 => lineChunks K i) i).flatten =
      List.range' (i * defaultRowGroupSize) defaultRowGroupSize := fun i => by
    rw [deliveredRowIds, ← List.flatMap_def, flatMap_rowIdList_lineChunks]
  rw [filterResult]
  simp only [hgroup]
  rw [lineRowIds_eq_range', ← flatMap_range' 0 defaultRowGroupSize 2]
  simp [List.finRange_succ, List.range_succ]

omit [LinearOrder K] in
theorem orthogonal_lineIndex (Q : QuantizationOf K E D) (sqrt : K → K) :
    (lineIndex Q sqrt).preprocessor.pruner.Orthogonal := by
  refine ADSamplingPruner.orthogonal_of_columns fun i (hi : i < 1) j (hj : j < 1) => ?_
  obtain rfl : i = 0 := Nat.lt_one_iff.mp hi
  obtain rfl : j = 0 := Nat.lt_one_iff.mp hj
  exact (Finset.sum_range_one _).trans (one_mul 1)

/-- What two threads leave. -/
theorem created_line (Q : QuantizationOf K E D) {sqrt : K → K} (hsqrt : IsSqrt sqrt) :
    ∃ w : PDXearchWrapperParallel K E D,
      (lineIndex Q sqrt).Created .l2sq (lineTable K) lineRowIds w ∧ w.Filled ∧
        w.numRowGroups = 2 ∧ (∀ r ∈ lineRowIds, getRowGroupId r < w.numRowGroups) ∧
        w.PrunersKeep 1 := by
  obtain ⟨index, hindex⟩ : ∃ index : PDXearchWrapperParallel K E D,
      PDXearchWrapperParallel.new ⟨1, false, 0, fun _ => 1⟩ (2 * defaultRowGroupSize) =
        some index := ⟨_, rfl⟩
  obtain ⟨tr, p, hrun, hfinished⟩ := Pool.exists_run_finished (lineIndex Q sqrt).setUpObj
    ((lineIndex Q sqrt).pipeline (fun _ => ⟨0, fun _ => 0, fun _ => 0⟩)
      (fun i : Fin 2 => lineChunks K i) index)
  obtain ⟨-, hnum, hgroups, hempty⟩ := PDXearchWrapperParallel.new_spec hindex
  have hshared : p.shared = (tr.map fun e => e.2.1).foldl (lineIndex Q sqrt).setUp index :=
    hrun.shared_eq
  have htwo : index.numRowGroups = 2 := by
    rw [hgroups]
    decide +kernel
  have hnumRowGroups : p.shared.numRowGroups = 2 := by
    rw [hshared, CreateIndex.numRowGroups_foldl_setUp, htwo]
  have hcreated : (lineIndex Q sqrt).Created .l2sq (lineTable K) lineRowIds p.shared := by
    refine ⟨rfl, hsqrt, orthogonal_lineIndex Q sqrt, fun r _ => nofun, _, 2 * defaultRowGroupSize,
      2, index, _, _, tr, p, rfl, hindex, fun embeddings n => ?_, delivered_line,
      filterResult_line (K := K) ▸ List.Perm.refl _, fun i chunk hchunk => holds_lineChunk hchunk,
      hrun, hfinished, rfl⟩
    rw [hnum]
    exact BuildContext.roundRobin_inRange (E := E) embeddings n (by decide)
  refine ⟨p.shared, hcreated, ?_, hnumRowGroups, fun r hr => ?_, fun g rowGroup hrowGroup => ?_⟩
  · refine ((CreateIndex.setsUpEverySlot_iff_delivered delivered_line hempty hrun hfinished).mpr
      fun g hg => ⟨g * defaultRowGroupSize, ?_, Nat.mul_div_cancel g (by decide)⟩).filled
    rw [filterResult_line, mem_lineRowIds_iff]
    exact Nat.mul_lt_mul_of_pos_right (htwo ▸ hg) (by decide)
  · rw [hnumRowGroups]
    exact getRowGroupId_lt_of_mem_lineRowIds hr
  · obtain ⟨⟨matrix, hpruner⟩, hdims⟩ := hcreated.exists_pruner_eq hrowGroup
    rw [hpruner, hdims]
    refine ⟨rfl, fun d (hd : d < 1) => ?_⟩
    rw [Nat.lt_one_iff.mp hd]
    exact le_rfl

theorem map_rowId_line {X : Type} (rowOf : Nat → TableRow X) (hid : TableRow.rowId ∘ rowOf = id)
    (rowIds : List Nat) : (rowIds.map rowOf).map TableRow.rowId = rowIds := by
  rw [List.map_map, hid, List.map_id]

/-- Some row ids of both row groups, for one thread each. -/
def linePassing (i : Fin 2) : List (List Nat) := [[[1, 2]], [[122880, 122881]]].getD i []

theorem delivered_linePassing : Delivered linePassing :=
  .of_rowGroups (by decide) (by decide)

theorem mem_lineRowIds_of_passing : ∀ r ∈ filterResult linePassing, r ∈ lineRowIds := by
  intro r hr
  have hlt : ∀ r ∈ filterResult linePassing, r < 2 * defaultRowGroupSize := by decide
  exact mem_lineRowIds_iff.mpr (hlt r hr)

/-- The rows that pass, of a table of these rows. -/
theorem perm_passing_line {X : Type} (rowOf : Nat → TableRow X) {passes : TableRow X → Bool}
    (hpasses : ∀ r, passes (rowOf r) ↔ r ∈ filterResult linePassing) :
    ((filterResult linePassing).map rowOf).Perm ((lineRowIds.map rowOf).filter passes) := by
  rw [List.filter_map]
  refine List.Perm.map _ ((List.perm_ext_iff_of_nodup delivered_linePassing.nodup
    (nodup_lineRowIds.filter _)).mpr fun r => ?_)
  rw [List.mem_filter, Function.comp_apply, hpasses]
  exact (and_iff_right_of_imp (mem_lineRowIds_of_passing r)).symm

/-- Cells that are numbers; only the row ids are compared. -/
def lineValues (K : Type) [Zero K] : Values Nat K := ⟨fun _ _ => 0, fun _ => 0, id, id, fun _ => rfl⟩

/-- The one column holds the positions. -/
def lineRow (rowId : Nat) : TableRow Nat := ⟨rowId, fun _ => rowId % defaultRowGroupSize⟩

def linePlanTable (K : Type) : Table Nat (Nat → K) K :=
  ⟨true, [], lineRowIds.map lineRow, (map_rowId_line lineRow rfl _).symm ▸ nodup_lineRowIds⟩

theorem standard_lineBindData : ∀ c ∈ [0], [ColumnCategory.standard][c]? = some .standard := by
  decide

theorem inRange_lineBindData : ∀ ref ∈ (Term.var ⟨0, 0⟩ : Expression (Symbol Nat)).vars,
    ref.columnIndex < [0].length := by
  simp [Term.vars]

/-- The rows that are nearest to 0, by an index on the column. -/
def lineBindData (sqrt : K → K) (limit : Nat) : ScanBindData Nat (Nat → K) K where
  index :=
    { isBoundPdxearch := true
      distanceFunctions := []
      matchesType := fun _ => true
      key := ⟨[.standard], [0], .var ⟨0, 0⟩, standard_lineBindData, inRange_lineBindData⟩
      queryEmbedding := fun _ => some fun _ => 0
      distance := fun query position =>
        (blobDistanceOp sqrt query (fun _ => (position : K)) 1 : K) }
  limit := limit
  queryEmbedding := fun _ => 0

/-- `SELECT rowid`, filtered. -/
def lineGet (K : Type) : LogicalOperator Nat (Nat → K) K :=
  .get ⟨.seqScan, linePlanTable K, 0, [columnIdentifierRowId], [],
    [(columnIdentifierRowId, fun rowId => rowId ∈ filterResult linePassing)], false⟩

theorem produces_lineGet :
    (lineGet K).Produces (lineValues K) ((filterResult linePassing).map fun rowId => [rowId]) := by
  refine ⟨(filterResult linePassing).map lineRow, perm_passing_line lineRow fun r => ?_, rfl⟩
  simp only [LogicalGet.passes, List.all_cons, List.all_nil, Bool.and_true, Values.column, if_pos,
    decide_eq_true_eq]
  rfl

omit [LinearOrder K] in
/-- The row ids are read from the one column. -/
theorem perm_rowIds_lineGet : (((filterResult linePassing).map fun rowId => [rowId]).map fun out =>
    (lineValues K).toRowId ((Term.var ⟨0, 0⟩ : Expression (Symbol Nat)).eval (lineValues K).interp
      (lookup (lineGet K).columnBindings out))).Perm (filterResult linePassing) := by
  rw [List.map_map]
  exact .of_eq (List.map_id _)

/-- With the numbers that have square roots. -/
noncomputable abbrev lineIndexF32 : CreateIndex Real Real (ExactFloat Real) :=
  lineIndex quantizationF32 Real.sqrt

omit [LinearOrder K] in
theorem plansQuery_line (Q : QuantizationOf K E D) (sqrt : K → K) (limit : Nat) :
    (lineIndex Q sqrt).PlansQuery blobDistanceOp (fun _ => 0) (lineTable K) lineRowIds
      (lineValues K) (linePlanTable K) (lineBindData sqrt limit) := by
  refine ⟨fun r hr => ?_, fun row hrow => ?_⟩
  · rwa [linePlanTable, map_rowId_line lineRow rfl]
  · obtain ⟨r, hr, rfl⟩ := List.mem_map.mp hrow
    refine Eq.trans ?_ (if_pos hr).symm
    rfl

end Line

/-! ## The operators -/

section Operators

namespace CreateIndex.Created

variable {K X Q : Type} [Field K] [LinearOrder K] [IsStrictOrderedRing K] [Inhabited X]
  {op : CreateIndex K K (ExactFloat K)} {metric : DistanceMetric}
  {table : Nat → Nat → K} {rowIds : List Nat} {w w' : PDXearchWrapperParallel K K (ExactFloat K)}
  {kernel : DistanceOp K} {query : Nat → K} {values : Values X K} {tbl : Table X Q K}
  {bindData : ScanBindData X Q K}

omit [Inhabited X] in
/-- An index of a table with embeddings answers exactly if these have few dimensions. -/
theorem losslessPruners_iff (h : op.Created metric table rowIds w)
    (hsqrt : IsSqrt op.ctx.sqrt) (hne : rowIds ≠ []) :
    FilteredScan.LosslessPruners w ↔ op.numDimensions ≤ 6 := by
  have hlossless : ∀ matrix, (ADSamplingPruner.new op.ctx.sqrt op.numDimensions matrix).Lossless ↔
      op.numDimensions ≤ 6 := fun matrix =>
    ADSamplingPruner.lossless_new_iff (fun _ => hsqrt.pos) (fun x hx => hsqrt.mul_self x hx.le) _
      matrix
  constructor
  · intro hpruners
    obtain ⟨r, hr⟩ := List.exists_mem_of_ne_nil _ hne
    obtain ⟨rows, hset, hrows, -, -⟩ := h.exists_rows (.refl w)
    obtain ⟨rowGroup, hrowGroup, -⟩ := hset.isIndexed ((hrows r).mpr hr)
    obtain ⟨⟨matrix, hpruner⟩, -⟩ := h.exists_pruner_eq hrowGroup
    have hkept := (hpruners _ _ hrowGroup).2
    rw [hpruner] at hkept
    exact (hlossless matrix).mp hkept
  · intro hfew g rowGroup hrowGroup
    obtain ⟨⟨matrix, hpruner⟩, hdims⟩ := h.exists_pruner_eq hrowGroup
    rw [hpruner, hdims]
    exact ⟨rfl, (hlossless matrix).mpr hfew⟩

theorem losslessPruners_iff_line : ∃ w : PDXearchWrapperParallel Real Real (ExactFloat Real),
    lineIndexF32.Created .l2sq (lineTable Real) lineRowIds w ∧ w.numRowGroups = 2 ∧
      (FilteredScan.LosslessPruners w ↔ lineIndexF32.numDimensions ≤ 6) := by
  obtain ⟨w, hcreated, -, htwo, -, -⟩ := created_line quantizationF32 isSqrt_sqrt
  have hrow : 0 ∈ lineRowIds := mem_lineRowIds_iff.mpr (by decide)
  exact ⟨w, hcreated, htwo, hcreated.losslessPruners_iff isSqrt_sqrt (List.ne_nil_of_mem hrow)⟩

omit [Inhabited X] in
/-- The rows whose ids a run of the unfiltered scan puts out. -/
theorem exists_scan_hits (h : op.Created metric table rowIds w)
    (hf32 : op.quantizationOf = quantizationF32) (hkernel : metric.IsKernel kernel)
    (hquery : metric.Defined op.numDimensions query)
    (hplans : op.PlansQuery kernel query table rowIds values tbl bindData)
    (hsame : w'.SameIndex w) (hfilled : w'.Filled)
    (hslots : ∀ r ∈ rowIds, getRowGroupId r < w'.numRowGroups) (hlt : ∀ r ∈ rowIds, r < 2 ^ 32)
    (hpruners : w'.PrunersKeep 1) (hk : 0 < bindData.limit) (hbits : bindData.limit < 2 ^ 32)
    (nProbe : Nat)
    {std : StdSort} {H : Type} [Heap H K] {arrays : Fin w'.numRowGroups → ProbeState (ExactFloat K)}
    {threads : Nat} {tr : List (ScanSourceAction threads)}
    {s : ScanSourceState K H w'.numRowGroups threads}
    (hrun : ((h.scannable hsame hfilled hslots hlt hpruners.fit).scan bindData.limit
      (op.preprocess query) nProbe).SourceRun std arrays tr s) :
    ∃ hits : List (TableRow X),
      (ParallelScan.outputs tr).flatten <+: hits.map TableRow.rowId ∧
      ((∃ i, s.getData i = .finished) →
        (ParallelScan.outputs tr).flatten = hits.map TableRow.rowId) ∧
      IsNearest (bindData.distance values) bindData.limit
        (tbl.rows.filter fun row => w'.isProbed std (op.preprocess query)
          ((h.scannable hsame hfilled hslots hlt hpruners.fit).scan bindData.limit
            (op.preprocess query) nProbe).numClustersToProbePerRowGroup row.rowId) hits ∧
      (nProbe = 0 ∨ w'.numClustersPerRowGroup ≤ nProbe →
        IsNearest (bindData.distance values) bindData.limit tbl.rows hits) := by
  obtain ⟨rows, hset, hrows, hdims, hembedding⟩ := h.exists_rows hsame
  have hscan := hf32 ▸ h.scannable hsame hfilled hslots hlt hpruners.fit
  obtain ⟨result, hresult, hprefix, hfinished⟩ := hrun.exists_result
  obtain ⟨hsmallest, hsorted⟩ := hscan.nearest_of_isSearchResult hk hbits h.nodup (hf32 ▸ hset)
    hrows hpruners hresult
  rw [hdims] at hsmallest hsorted
  obtain ⟨hits, hnearest, rfl⟩ := h.orders.exists_hits hkernel hquery hplans
    (fun r hr => h.rowDistance_eq hembedding query hr) _ hsmallest hsorted
  refine ⟨hits, hprefix, hfinished, hnearest, fun hprobe => ?_⟩
  have hall := hplans.isNearest_filter_congr (q := fun _ => true)
    (fun _ hr => hscan.isProbed_of_nProbe hprobe hr) hnearest
  rwa [List.filter_true] at hall

/-- In every run of the unfiltered scan the chunks are, in order, the row ids of rows that the index
scan of the plan may produce: of the nearest rows in the clusters that are probed, and of the
nearest of all rows if all clusters are. -/
theorem scan_produces (h : op.Created metric table rowIds w)
    (hf32 : op.quantizationOf = quantizationF32) (hkernel : metric.IsKernel kernel)
    (hquery : metric.Defined op.numDimensions query)
    (hplans : op.PlansQuery kernel query table rowIds values tbl bindData)
    (hsame : w'.SameIndex w) (hfilled : w'.Filled)
    (hslots : ∀ r ∈ rowIds, getRowGroupId r < w'.numRowGroups) (hlt : ∀ r ∈ rowIds, r < 2 ^ 32)
    (hpruners : w'.PrunersKeep 1) (hk : 0 < bindData.limit) (hbits : bindData.limit < 2 ^ 32)
    (nProbe : Nat)
    {std : StdSort} {H : Type} [Heap H K] {arrays : Fin w'.numRowGroups → ProbeState (ExactFloat K)}
    {threads : Nat} {tr : List (ScanSourceAction threads)}
    {s : ScanSourceState K H w'.numRowGroups threads} (columnIds : List Nat) (tableIndex : Nat)
    (hrun : ((h.scannable hsame hfilled hslots hlt hpruners.fit).scan bindData.limit
      (op.preprocess query) nProbe).SourceRun std arrays tr s) :
    ∃ hits : List (TableRow X),
      (ParallelScan.outputs tr).flatten <+: hits.map TableRow.rowId ∧
      ((∃ i, s.getData i = .finished) →
        (ParallelScan.outputs tr).flatten = hits.map TableRow.rowId) ∧
      IsNearest (bindData.distance values) bindData.limit
        (tbl.rows.filter fun row => w'.isProbed std (op.preprocess query)
          ((h.scannable hsame hfilled hslots hlt hpruners.fit).scan bindData.limit
            (op.preprocess query) nProbe).numClustersToProbePerRowGroup row.rowId) hits ∧
      (nProbe = 0 ∨ w'.numClustersPerRowGroup ≤ nProbe →
        (LogicalOperator.pdxearchIndexScan tbl bindData columnIds tableIndex).Produces values
          (hits.map (emit values columnIds
            (generateColumnBindings tableIndex columnIds.length)))) := by
  obtain ⟨hits, hprefix, hfinished, hnearest, hall⟩ := h.exists_scan_hits hf32 hkernel hquery hplans
    hsame hfilled hslots hlt hpruners hk hbits nProbe hrun
  exact ⟨hits, hprefix, hfinished, hnearest, fun hprobe => ⟨hits, hall hprobe, rfl⟩⟩

/-- Two threads, after the last call of each. -/
theorem scan_produces_line : ∃ (w : PDXearchWrapperParallel Real Real (ExactFloat Real))
    (hscan : w.Scannable lineIndexF32.ctx quantizationF32 lineRowIds)
    (tr : List (ScanSourceAction 2))
    (s : ScanSourceState Real (SortedQueue (KNNCandidate.distance (K := Real))) w.numRowGroups 2),
    lineIndexF32.Created .l2sq (lineTable Real) lineRowIds w ∧ w.numRowGroups = 2 ∧
    (hscan.scan 3 (lineIndexF32.preprocess fun _ => 0) 0).SourceRun .insertion
      (fun _ => .const (ofReal 0)) tr s ∧ (∀ i, s.getData i = .finished) ∧
    ∃ hits : List (TableRow Nat),
      (ParallelScan.outputs tr).flatten = hits.map TableRow.rowId ∧
      (LogicalOperator.pdxearchIndexScan (linePlanTable Real) (lineBindData Real.sqrt 3)
        [columnIdentifierRowId] 0).Produces (lineValues Real)
          (hits.map (emit (lineValues Real) [columnIdentifierRowId]
            (generateColumnBindings 0 1))) := by
  obtain ⟨w, hcreated, hfilled, htwo, hslots, hpruners⟩ := created_line quantizationF32 isSqrt_sqrt
  have hscan := hcreated.scannable (.refl w) hfilled hslots lt_of_mem_lineRowIds hpruners.fit
  obtain ⟨tr, s, hrun, hall⟩ := ParallelScan.exists_sourceRun_finished (htwo ▸ two_pos)
    (hscan.scan 3 (lineIndexF32.preprocess fun _ => 0) 0) StdSort.insertion
    (fun _ => .const (ofReal 0)) (SortedQueue (KNNCandidate.distance (K := Real))) 2
  obtain ⟨hits, -, hcomplete, -, hproduces⟩ := hcreated.scan_produces rfl
    isKernel_blobDistanceOp nofun (plansQuery_line quantizationF32 Real.sqrt 3) (.refl w) hfilled
    hslots lt_of_mem_lineRowIds hpruners three_pos (by decide) 0 [columnIdentifierRowId] 0 hrun
  exact ⟨w, hscan, tr, s, hcreated, htwo, hrun, hall, hits, hcomplete ⟨0, hall 0⟩,
    hproduces (Or.inl rfl)⟩

omit [Inhabited X] in
/-- The rows whose ids a run of the filtered scan puts out. -/
theorem exists_filteredScan_hits (h : op.Created metric table rowIds w)
    (hf32 : op.quantizationOf = quantizationF32) (hkernel : metric.IsKernel kernel)
    (hquery : metric.Defined op.numDimensions query)
    (hplans : op.PlansQuery kernel query table rowIds values tbl bindData)
    {scan : FilteredScan K K (ExactFloat K)} (hsame : scan.index.SameIndex w)
    (hpreprocessed : scan.preprocessedQueryEmbedding = op.preprocess query)
    (hlimit : scan.limit = bindData.limit) (hk : 0 < bindData.limit)
    (hbits : bindData.limit < 2 ^ 32)
    (hpruners : FilteredScan.LosslessPruners scan.index) {threads : Nat}
    {inputChunks : Fin threads → List (List Nat)} (hdelivered : Delivered inputChunks)
    (hsub : ∀ r ∈ filterResult inputChunks, r ∈ rowIds)
    (hlt : ∀ r ∈ filterResult inputChunks, r < 2 ^ 32) {std : StdSort} {H : Type} [Heap H K]
    {arrays : Nat → Nat → ProbeState (ExactFloat K)} {tr : List (ScanEvent K)} {n : Nat} {heap : H}
    {emitted : List Nat}
    (hrun : scan.Run arrays (scan.start std arrays H inputChunks) tr (.source n heap emitted)) :
    ∃ hits : List (TableRow X), emitted = hits.map TableRow.rowId ∧
      IsNearest (bindData.distance values) bindData.limit
        (tbl.rows.filter fun row => row.rowId ∈ filterResult inputChunks ∧
          scan.isProbed std (scan.cursor n) row.rowId = true) hits ∧
      (scan.nProbe = 0 ∨ scan.index.numClustersPerRowGroup ≤ scan.nProbe ∨
          emitted.length < bindData.limit →
        IsNearest (bindData.distance values) bindData.limit
          (tbl.rows.filter fun row => row.rowId ∈ filterResult inputChunks) hits) := by
  obtain ⟨rows, hset, hrows, hdims, hembedding⟩ := h.exists_rows hsame
  rw [hf32] at hset
  have hrowOf : ∀ r ∈ filterResult inputChunks, IsRowOf rows r := fun r hr =>
    (hrows r).mpr (hsub r hr)
  have hk' : scan.k = bindData.limit := (FilteredScan.k_eq (hlimit ▸ hbits)).trans hlimit
  obtain ⟨hsmallest, hsorted, henough⟩ := FilteredScan.emitted_nearest_of_run std hset hpruners
    (hk' ▸ hk) hdelivered hrowOf hlt hrun
  have hdist : scan.distanceOf rows =
      rowDistance rows op.numDimensions (op.preprocess query) := by
    rw [← hpreprocessed, ← hdims]
    rfl
  have hpassing : ((filterResult inputChunks).filter fun r =>
      scan.isProbed std (scan.cursor n) r).Perm (rowIds.filter fun r =>
        r ∈ filterResult inputChunks ∧ scan.isProbed std (scan.cursor n) r = true) := by
    refine (List.perm_ext_iff_of_nodup (hdelivered.nodup.filter _) (h.nodup.filter _)).mpr
      fun r => ?_
    simp only [List.mem_filter, decide_eq_true_eq]
    exact ⟨fun ⟨hr, hp⟩ => ⟨hsub r hr, hr, hp⟩, fun ⟨_, hr, hp⟩ => ⟨hr, hp⟩⟩
  rw [hdist, hk', Multiset.coe_eq_coe.mpr hpassing] at hsmallest
  rw [hdist] at hsorted
  obtain ⟨hits, hnearest, rfl⟩ := h.orders.exists_hits hkernel hquery hplans
    (fun r hr => h.rowDistance_eq hembedding query hr) _ hsmallest hsorted
  refine ⟨hits, rfl, hnearest, fun hprobe => ?_⟩
  have hall : ∀ r ∈ filterResult inputChunks, scan.isProbed std (scan.cursor n) r = true := by
    rcases hprobe with hzero | hle | hfew
    · exact fun r hr => hset.isProbed_of_le (hrowOf r hr)
        (FilteredScan.cursor_eq_of_nProbe (Or.inl hzero)).ge
    · exact fun r hr => hset.isProbed_of_le (hrowOf r hr)
        (FilteredScan.cursor_eq_of_nProbe (Or.inr hle)).ge
    · exact henough.resolve_left (hk' ▸ hfew.ne)
  have hsets : (tbl.rows.filter fun row => row.rowId ∈ filterResult inputChunks ∧
      scan.isProbed std (scan.cursor n) row.rowId = true) = tbl.rows.filter fun row =>
        row.rowId ∈ filterResult inputChunks := by
    refine List.filter_congr fun row _ => ?_
    rw [decide_eq_decide]
    exact and_iff_left_of_imp (hall row.rowId)
  rwa [hsets] at hnearest

/-- Two threads that are given passing rows of one row group each come to the source. -/
theorem exists_filteredRun_line {w : PDXearchWrapperParallel Real Real (ExactFloat Real)}
    (hcreated : lineIndexF32.Created .l2sq (lineTable Real) lineRowIds w) (query : Nat → Real) :
    ∃ (tr : List (ScanEvent Real)) (n : Nat)
      (heap : SortedQueue (KNNCandidate.distance (K := Real))) (emitted : List Nat),
      (FilteredScan.mk 3 query 0 w).Run (fun _ _ => .const (ofReal 0))
        ((FilteredScan.mk 3 query 0 w).start .insertion (fun _ _ => .const (ofReal 0))
          (SortedQueue (KNNCandidate.distance (K := Real))) linePassing)
        tr (.source n heap emitted) := by
  obtain ⟨rows, hset, hrows, -, -⟩ := hcreated.exists_rows (.refl w)
  have hreturns : (FilteredScan.mk 3 query 0 w).ReturnsMinKRows .insertion
      (SortedQueue (KNNCandidate.distance (K := Real))) (fun _ _ => .const (ofReal 0))
      linePassing :=
    FilteredScan.returnsMinKRows_of_lt hset (fun _ => measured_f32 rfl) three_pos
      delivered_linePassing (fun r hr => (hrows r).mpr (mem_lineRowIds_of_passing r hr)) _ _ _
      (show (3 : Nat) < 2 ^ 32 by decide) (by decide)
  exact FilteredScan.exists_run_source hreturns.terminates

/-- In every run of the filtered scan the emitted row ids are, in order, those of rows that the
filtered index scan of the plan may produce: of the nearest of the passing rows in the clusters that
were probed, and of the nearest of all passing rows if the first iteration probed all clusters or
if fewer rows than the limit were found. -/
theorem filteredScan_produces (h : op.Created metric table rowIds w)
    (hf32 : op.quantizationOf = quantizationF32) (hkernel : metric.IsKernel kernel)
    (hquery : metric.Defined op.numDimensions query)
    (hplans : op.PlansQuery kernel query table rowIds values tbl bindData)
    {scan : FilteredScan K K (ExactFloat K)} (hsame : scan.index.SameIndex w)
    (hpreprocessed : scan.preprocessedQueryEmbedding = op.preprocess query)
    (hlimit : scan.limit = bindData.limit) (hk : 0 < bindData.limit)
    (hbits : bindData.limit < 2 ^ 32)
    (hpruners : FilteredScan.LosslessPruners scan.index) {child : LogicalOperator X Q K}
    {rowIdColumn : Expression (Symbol X)} {input : List (List X)}
    (hinput : child.Produces values input) {threads : Nat}
    {inputChunks : Fin threads → List (List Nat)} (hdelivered : Delivered inputChunks)
    (hids : (input.map fun out => values.toRowId (rowIdColumn.eval values.interp
      (lookup child.columnBindings out))).Perm (filterResult inputChunks))
    (hsub : ∀ r ∈ filterResult inputChunks, r ∈ rowIds)
    (hlt : ∀ r ∈ filterResult inputChunks, r < 2 ^ 32) {std : StdSort} {H : Type} [Heap H K]
    {arrays : Nat → Nat → ProbeState (ExactFloat K)} {tr : List (ScanEvent K)} {n : Nat} {heap : H}
    {emitted : List Nat} (columnIds : List Nat) (tableIndex : Nat)
    (hrun : scan.Run arrays (scan.start std arrays H inputChunks) tr (.source n heap emitted)) :
    ∃ hits : List (TableRow X), emitted = hits.map TableRow.rowId ∧
      IsNearest (bindData.distance values) bindData.limit
        (tbl.rows.filter fun row => row.rowId ∈ filterResult inputChunks ∧
          scan.isProbed std (scan.cursor n) row.rowId = true) hits ∧
      (scan.nProbe = 0 ∨ scan.index.numClustersPerRowGroup ≤ scan.nProbe ∨
          emitted.length < bindData.limit →
        (LogicalOperator.pdxearchIndexFilteredScan tbl bindData columnIds tableIndex rowIdColumn
          child).Produces values (hits.map (emit values columnIds
            (generateColumnBindings tableIndex columnIds.length)))) := by
  obtain ⟨hits, hemitted, hnearest, hall⟩ := h.exists_filteredScan_hits hf32 hkernel hquery hplans
    hsame hpreprocessed hlimit hk hbits hpruners hdelivered hsub hlt hrun
  refine ⟨hits, hemitted, hnearest, fun hprobe => ⟨input, hits, hinput, ?_, rfl⟩⟩
  simp only [hids.mem_iff]
  exact hall hprobe

/-- Two threads that are given passing rows of one row group each. -/
theorem filteredScan_produces_line : ∃ (w : PDXearchWrapperParallel Real Real (ExactFloat Real))
    (tr : List (ScanEvent Real)) (n : Nat)
    (heap : SortedQueue (KNNCandidate.distance (K := Real))) (emitted : List Nat),
    lineIndexF32.Created .l2sq (lineTable Real) lineRowIds w ∧ w.numRowGroups = 2 ∧
    (FilteredScan.mk 3 (lineIndexF32.preprocess fun _ => 0) 0 w).Run
      (fun _ _ => .const (ofReal 0))
      ((FilteredScan.mk 3 (lineIndexF32.preprocess fun _ => 0) 0 w).start .insertion
        (fun _ _ => .const (ofReal 0))
        (SortedQueue (KNNCandidate.distance (K := Real))) linePassing)
      tr (.source n heap emitted) ∧
    ∃ hits : List (TableRow Nat), emitted = hits.map TableRow.rowId ∧
      (LogicalOperator.pdxearchIndexFilteredScan (linePlanTable Real) (lineBindData Real.sqrt 3)
        [columnIdentifierRowId] 1 (.var ⟨0, 0⟩) (lineGet Real)).Produces (lineValues Real)
          (hits.map (emit (lineValues Real) [columnIdentifierRowId]
            (generateColumnBindings 1 1))) := by
  obtain ⟨w, hcreated, -, htwo, -, hpruners⟩ := created_line quantizationF32 isSqrt_sqrt
  have hlossless : FilteredScan.LosslessPruners w := hpruners
  obtain ⟨tr, n, heap, emitted, hrun⟩ := exists_filteredRun_line hcreated
    (lineIndexF32.preprocess fun _ => 0)
  obtain ⟨hits, hemitted, -, hproduces⟩ := hcreated.filteredScan_produces rfl
    isKernel_blobDistanceOp nofun (plansQuery_line quantizationF32 Real.sqrt 3) (.refl w) rfl rfl
    three_pos (by decide) hlossless produces_lineGet delivered_linePassing
    perm_rowIds_lineGet mem_lineRowIds_of_passing (by decide) [columnIdentifierRowId] 1 hrun
  exact ⟨w, tr, n, heap, emitted, hcreated, htwo, hrun, hits, hemitted, hproduces (Or.inl rfl)⟩

end CreateIndex.Created

end Operators

end PDXearch
