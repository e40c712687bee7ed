import PDXearch.Create.CreatedGlobalIndex
import PDXearch.Scan.GlobalScan
import PDXearch.Scan.TableQueries

/-!
# Queries on a global index

In the global implementation an unfiltered search is run by a table function, which searches when it is
initialised and then hands the row ids on chunk by chunk. From `CREATE INDEX` to the rows that a query
gets, the table function and the filtered scan emit the nearest rows by the distance function of the
query exactly when the cut of the cluster that fills the heap does no harm.
-/

namespace PDXearch

open Lib ExactFloat

/-! ## The table function -/

/-- `PDXearchIndexScanState` -/
structure PDXearchIndexScanState where
  currentRow : Nat
  rowIds : List Nat

namespace PDXearchIndexScanState

/-- The loop of `GlobalScan` with `room` left in the vector: what is pushed, and the row after it. -/
def pushRowIds (rowIds : List Nat) : Nat → Nat → List Nat × Nat
  | 0, currentRow => ([], currentRow)
  | room + 1, currentRow =>
    match rowIds[currentRow]? with
    | none => ([], currentRow)
    | some rowId =>
      let (pushed, nextRow) := pushRowIds rowIds room (currentRow + 1)
      (rowId :: pushed, nextRow)

/-- `GlobalScan` -/
def globalScan (state : PDXearchIndexScanState) : List Nat × PDXearchIndexScanState :=
  let (pushed, currentRow) := pushRowIds state.rowIds standardVectorSize state.currentRow
  (pushed, { state with currentRow := currentRow })

/-- The chunks that at most `n` calls of `PDXearchIndexScanExecute` put out; after an empty one there
is no call. -/
def executeCalls : Nat → PDXearchIndexScanState → List (List Nat)
  | 0, _ => []
  | n + 1, state =>
    match globalScan state with
    | ([], _) => []
    | (rowId :: rowIds, state) => (rowId :: rowIds) :: executeCalls n state

theorem pushRowIds_eq (rowIds : List Nat) (room currentRow : Nat) :
    pushRowIds rowIds room currentRow =
      (page room rowIds currentRow, currentRow + (page room rowIds currentRow).length) := by
  induction room generalizing currentRow with
  | zero => rfl
  | succ room ih =>
    rw [pushRowIds]
    by_cases hlt : currentRow < rowIds.length
    · have hpage : page (room + 1) rowIds currentRow =
          rowIds[currentRow] :: page room rowIds (currentRow + 1) := by
        rw [page, page, List.drop_eq_getElem_cons hlt, List.take_succ_cons]
      rw [List.getElem?_eq_getElem hlt, hpage, ih]
      simp only [List.length_cons, Prod.mk.injEq, true_and]
      omega
    · have hpage : page (room + 1) rowIds currentRow = [] :=
        (page_eq_nil_iff (Nat.succ_pos room)).mpr (not_lt.mp hlt)
      rw [List.getElem?_eq_none (not_lt.mp hlt), hpage]
      rfl

theorem globalScan_eq (state : PDXearchIndexScanState) : state.globalScan =
    (page standardVectorSize state.rowIds state.currentRow, { state with
      currentRow := state.currentRow +
        (page standardVectorSize state.rowIds state.currentRow).length }) := by
  rw [globalScan, pushRowIds_eq]

/-- The calls after those that put out `pages`. -/
theorem executeCalls_paged {rowIds : List Nat} {pages : List (List Nat)} {currentRow : Nat}
    (h : Paged standardVectorSize rowIds pages currentRow) (n : Nat) :
    (∃ position, Paged standardVectorSize rowIds (pages ++ executeCalls n ⟨currentRow, rowIds⟩)
        position) ∧
      ((executeCalls n ⟨currentRow, rowIds⟩).length < n →
        (pages ++ executeCalls n ⟨currentRow, rowIds⟩).flatten = rowIds) := by
  induction n generalizing pages currentRow with
  | zero => exact ⟨⟨currentRow, (List.append_nil pages).symm ▸ h⟩, nofun⟩
  | succ n ih =>
    rw [executeCalls, globalScan_eq]
    cases hpage : page standardVectorSize rowIds currentRow with
    | nil =>
      simp only [List.append_nil]
      exact ⟨⟨currentRow, h⟩, fun _ => (h.complete (by decide) hpage).1⟩
    | cons rowId rest =>
      have hnext := h.snoc (hpage ▸ List.cons_ne_nil rowId rest)
      rw [hpage] at hnext
      obtain ⟨hpaged, hall⟩ := ih hnext
      simp only [List.append_assoc, List.singleton_append, List.length_cons,
        Nat.add_lt_add_iff_right] at hpaged hall ⊢
      exact ⟨hpaged, hall⟩

end PDXearchIndexScanState

/-- `InitializeGlobalScan`; the limit becomes a 32-bit number. -/
def PDXearchWrapperGlobal.initializeGlobalScan {K E D : Type} [Field K] [LinearOrder K]
    [LinearOrder D] [Zero E] (w : PDXearchWrapperGlobal K E D) (H : Type) [Heap H K]
    (context : SearchContext K D) (queryEmbedding : Nat → K) (limit nProbe : Nat) :
    Option PDXearchIndexScanState :=
  (w.search H context queryEmbedding (limit % 2 ^ 32) nProbe).map fun rowIds => ⟨0, rowIds⟩

namespace CreateIndex

/-! ## The distance function of the query -/

section Distances

variable {K E D : Type} [Field K] [LinearOrder K] [IsStrictOrderedRing K] {op : CreateIndex K E D}
  {metric : DistanceMetric} {table : Nat → Nat → K} {rowIds : List Nat} {kernel : DistanceOp K}
  {query : Nat → K}

/-- The index orders the rows as the distance function does. -/
theorem Orders.queryDistance_le_iff (h : op.Orders metric table rowIds)
    (hkernel : metric.IsKernel kernel) (hquery : metric.Defined op.numDimensions query) {r r' : Nat}
    (hr : r ∈ rowIds) (hr' : r' ∈ rowIds) :
    op.preprocessor.indexDistance metric query (table r) ≤
        op.preprocessor.indexDistance metric query (table r') ↔
      op.queryDistance kernel query table r ≤ op.queryDistance kernel query table r' :=
  indexDistance_le_iff h.sqrt h.orthogonal hkernel hquery (h.defined r hr) (h.defined r' hr')

end Distances

/-! ## A table of two full row groups -/

section Line

variable {K E D : Type} [Field K] [LinearOrder K] [Zero E]

/-- What `CREATE INDEX` makes of the rows. -/
def lineGlobal (Q : QuantizationOf K E D) (sqrt : K → K) : PDXearchWrapperGlobal K E D :=
  (lineIndex Q sqrt).finalizeGlobal ((lineChunks K 0 ++ lineChunks K 1).foldl
    (lineIndex Q sqrt).sinkGlobal (initialGlobalState ⟨0, fun _ => 0, fun _ => 0⟩
      (.new ⟨1, false, 0, fun _ => 1⟩ (2 * defaultRowGroupSize))))

theorem createdGlobal_line (Q : QuantizationOf K E D) {sqrt : K → K} (hsqrt : IsSqrt sqrt) :
    (lineIndex Q sqrt).CreatedGlobal .l2sq (lineTable K) lineRowIds (lineGlobal Q sqrt) where
  isNormalized := rfl
  sqrt := hsqrt
  orthogonal := orthogonal_lineIndex Q sqrt
  defined _ _ := nofun
  nodup := nodup_lineRowIds
  run := by
    refine ⟨⟨1, false, 0, fun _ => 1⟩, 2 * defaultRowGroupSize, _, lineChunks K 0 ++ lineChunks K 1,
      rfl, rfl, rfl, fun embeddings n => ?_, .of_eq ?_, fun chunk hchunk => ?_, rfl⟩
    · exact BuildContext.roundRobin_inRange (E := E) embeddings n (by decide +kernel)
    · rw [List.flatMap_append, flatMap_rowIdList_lineChunks, flatMap_rowIdList_lineChunks,
        lineRowIds_eq_range', Nat.two_mul, Nat.zero_mul, Nat.one_mul]
      exact (congrArg _ (congrArg (List.range' · _) (Nat.zero_add _).symm)).trans List.range'_append_1
    · rcases List.mem_append.mp hchunk with hfirst | hsecond
      · exact holds_lineChunk hfirst
      · exact holds_lineChunk hsecond

end Line

namespace CreatedGlobal

variable {K X Q : Type} [Field K] [LinearOrder K] [IsStrictOrderedRing K] [Inhabited X]
  {op : CreateIndex K K (ExactFloat K)} {metric : DistanceMetric}
  {table : Nat → Nat → K} {rowIds : List Nat} {w w' : PDXearchWrapperGlobal K K (ExactFloat K)}
  {context : SearchContext K (ExactFloat K)} {kernel : DistanceOp K} {query : Nat → K}
  {values : Values X K} {tbl : Table X Q K} {bindData : ScanBindData X Q K} {nProbe : Nat}

/-! ## The operators -/

omit [Inhabited X] in
/-- The nearest rows are hits of the plan. -/
theorem exists_hits (h : op.CreatedGlobal metric table rowIds w) (hsame : w'.SameIndex w)
    (hkernel : metric.IsKernel kernel) (hquery : metric.Defined op.numDimensions query)
    (hplans : op.PlansQuery kernel query table rowIds values tbl bindData) {selects : Nat → Bool}
    {result : List Nat}
    (hnearest : w'.FindsNearest context query nProbe
      (fun r => op.preprocessor.indexDistance metric query (table r)) bindData.limit
      (rowIds.filter selects) result) :
    ∃ hits : List (TableRow X), result = hits.map TableRow.rowId ∧
      IsNearest (bindData.distance values) bindData.limit (tbl.rows.filter fun row =>
        w'.isVisited context query nProbe row.rowId && selects row.rowId) hits ∧
      (nProbe = 0 ∨ w'.numClusters ≤ nProbe → IsNearest (bindData.distance values) bindData.limit
        (tbl.rows.filter fun row => selects row.rowId) hits) := by
  obtain ⟨hsmallest, hsorted⟩ := hnearest
  rw [List.filter_filter] at hsmallest
  obtain ⟨hits, hhits, rfl⟩ := h.toOrders.exists_hits hkernel hquery hplans (fun _ _ => rfl) _
    hsmallest hsorted
  refine ⟨hits, rfl, hhits, fun hprobe => ?_⟩
  refine hplans.isNearest_filter_congr
    (p := fun r => w'.isVisited context query nProbe r && selects r) (fun r hr => ?_) hhits
  rw [h.isVisited_of_nProbe hsame context query hprobe hr, Bool.true_and]

/-- The table function hands on one list of rows, however often it is called. They are the nearest rows
of the visited clusters by the distance function of the query, in order, exactly when the cut of the
cluster that fills the heap does no harm. Then they are rows that the index scan of the plan may
produce if all clusters are visited. -/
theorem scan_nearest_iff (h : op.CreatedGlobal metric table rowIds w)
    (context : SearchContext K (ExactFloat K)) (get : LogicalGet X Q K)
    (hf32 : op.quantizationOf = quantizationF32) (hkernel : metric.IsKernel kernel)
    (hquery : metric.Defined op.numDimensions query)
    (hfunction : get.function = .pdxearchIndexScan bindData) (hfilters : get.tableFilters = [])
    (hplans : op.PlansQuery kernel query table rowIds values get.table bindData)
    (hsame : w'.SameIndex w) (hprunes : w'.PrunesLosslessly op.preprocessor.pruner)
    (hcontext : context.sqrt = op.preprocessor.sqrt) (hlt : ∀ r ∈ rowIds, r < 2 ^ 32)
    (hk : 0 < bindData.limit) (hk32 : bindData.limit < 2 ^ 32) (nProbe : Nat) (H : Type) [Heap H K] :
    ∃ state, w'.initializeGlobalScan H context query bindData.limit nProbe = some state ∧
      (∀ n, (∃ position, Paged standardVectorSize state.rowIds (state.executeCalls n) position) ∧
        ((state.executeCalls n).length < n → (state.executeCalls n).flatten = state.rowIds)) ∧
      (w'.FindsNearest context query nProbe (op.queryDistance kernel query table) bindData.limit rowIds
          state.rowIds ↔
        w'.CutsHarmlessly context query nProbe (op.queryDistance kernel query table) bindData.limit
          rowIds) ∧
      (w'.CutsHarmlessly context query nProbe (op.queryDistance kernel query table) bindData.limit
          rowIds → ∃ hits : List (TableRow X), state.rowIds = hits.map TableRow.rowId ∧
        IsNearest (bindData.distance values) bindData.limit (get.table.rows.filter fun row =>
          w'.isVisited context query nProbe row.rowId) hits ∧
        (nProbe = 0 ∨ w'.numClusters ≤ nProbe → (LogicalOperator.get get).Produces values
          (hits.map (emit values get.columnIds get.columnBindings)))) := by
  obtain ⟨result, hresult, hiff⟩ := h.search_nearest_iff H hf32 hsame hprunes hquery hcontext hlt hk
    nProbe
  have hle : ∀ r ∈ rowIds, ∀ r' ∈ rowIds, _ ↔ _ := fun r hr r' hr' =>
    h.queryDistance_le_iff hkernel hquery hr hr'
  refine ⟨⟨0, result⟩, ?_, fun n => ?_, ?_, fun hharmless => ?_⟩
  · rw [PDXearchWrapperGlobal.initializeGlobalScan, Nat.mod_eq_of_lt hk32, hresult, Option.map_some]
  · exact PDXearchIndexScanState.executeCalls_paged .nil n
  · rw [← PDXearchWrapperGlobal.findsNearest_congr hle, hiff,
      PDXearchWrapperGlobal.cutsHarmlessly_congr hle]
  · have hnearest := hiff.mpr ((PDXearchWrapperGlobal.cutsHarmlessly_congr hle).mpr hharmless)
    rw [← List.filter_true rowIds] at hnearest
    obtain ⟨hits, hrows, hvisited, hall⟩ := h.exists_hits hsame hkernel hquery hplans hnearest
    simp only [Bool.and_true, List.filter_true] at hvisited hall
    refine ⟨hits, hrows, hvisited, fun hprobe => ⟨hits, ?_, rfl⟩⟩
    have hpasses : get.table.rows.filter (get.passes values) = get.table.rows :=
      List.filter_eq_self.mpr fun row _ => by rw [LogicalGet.passes, hfilters, List.all_nil]
    simp only [hfunction, hpasses]
    exact hall hprobe

/-- All rows, the first 100 pages. -/
theorem scan_nearest_iff_line : ∃ state,
    (lineGlobal quantizationF32 Real.sqrt).initializeGlobalScan
      (SortedQueue (KNNCandidate.distance (K := Real)))
      ⟨StdSort.insertion, Real.sqrt, fun _ => 0, .const (ofReal 0)⟩
      (fun _ => 0) (2 * defaultRowGroupSize) 0 = some state ∧
    ∃ hits : List (TableRow Nat), (state.executeCalls 100).flatten <+: hits.map TableRow.rowId ∧
      (LogicalOperator.get ⟨.pdxearchIndexScan (lineBindData Real.sqrt (2 * defaultRowGroupSize)),
        linePlanTable Real, 0, [columnIdentifierRowId], [], [], false⟩).Produces (lineValues Real)
          (hits.map (emit (lineValues Real) [columnIdentifierRowId] (generateColumnBindings 0 1))) := by
  have hcreated := createdGlobal_line (quantizationF32 (K := Real)) isSqrt_sqrt
  obtain ⟨state, hstate, hcalls, -, hhits⟩ := hcreated.scan_nearest_iff
    ⟨StdSort.insertion, Real.sqrt, fun _ => 0, .const (ofReal 0)⟩
    ⟨.pdxearchIndexScan (lineBindData Real.sqrt (2 * defaultRowGroupSize)), linePlanTable Real, 0,
      [columnIdentifierRowId], [], [], false⟩ rfl isKernel_blobDistanceOp nofun rfl rfl
    (plansQuery_line quantizationF32 Real.sqrt _) (.refl _)
    ((hcreated.prunesLosslessly_iff isSqrt_sqrt).mpr (by decide)) rfl
    lt_of_mem_lineRowIds (by decide) (by decide) 0
    (SortedQueue (KNNCandidate.distance (K := Real)))
  obtain ⟨hits, hrows, -, hproduces⟩ := hhits
    (PDXearchWrapperGlobal.cutsHarmlessly_of_length_le length_lineRowIds.le)
  obtain ⟨⟨position, hpaged⟩, -⟩ := hcalls 100
  refine ⟨state, hstate, hits, ?_, hproduces (Or.inl rfl)⟩
  rw [← hrows, hpaged.flatten]
  exact List.take_prefix _ _

/-- Whichever threads are given the passing row ids, the filtered scan emits one list of rows. They are
the nearest of the passing rows in the visited clusters by the distance function of the query, in
order, exactly when the cut of the cluster that fills the heap does no harm. Then they are rows that the
filtered index scan of the plan may produce if all clusters are visited. -/
theorem filteredScan_nearest_iff (h : op.CreatedGlobal metric table rowIds w)
    (context : SearchContext K (ExactFloat K)) (scan : GlobalFilteredScan K K (ExactFloat K))
    (hf32 : op.quantizationOf = quantizationF32) (hkernel : metric.IsKernel kernel)
    (hquery : metric.Defined op.numDimensions scan.queryEmbedding)
    (hplans : op.PlansQuery kernel scan.queryEmbedding table rowIds values tbl bindData)
    (hlimit : scan.limit = bindData.limit) (hk : 0 < bindData.limit)
    (hk32 : bindData.limit < 2 ^ 32) (hsame : scan.index.SameIndex w)
    (hprunes : scan.index.PrunesLosslessly op.preprocessor.pruner)
    (hcontext : context.sqrt = op.preprocessor.sqrt) {child : LogicalOperator X Q K}
    {rowIdColumn : Expression (Symbol X)} {input : List (List X)}
    (hinput : child.Produces values input) {passing : List Nat} (hnodup : passing.Nodup)
    (hids : (input.map fun out => values.toRowId (rowIdColumn.eval values.interp
      (lookup child.columnBindings out))).Perm passing) (hsub : ∀ r ∈ passing, r ∈ rowIds)
    (hlt : ∀ r ∈ passing, r < 2 ^ 32) (columnIds : List Nat) (tableIndex : Nat) (H : Type) [Heap H K] :
    ∃ result, scan.EmitsPassing H context passing result ∧
      (scan.index.FindsNearest context scan.queryEmbedding scan.nProbe
          (op.queryDistance kernel scan.queryEmbedding table) bindData.limit passing result ↔
        scan.index.CutsHarmlessly context scan.queryEmbedding scan.nProbe
          (op.queryDistance kernel scan.queryEmbedding table) bindData.limit passing) ∧
      (scan.index.CutsHarmlessly context scan.queryEmbedding scan.nProbe
          (op.queryDistance kernel scan.queryEmbedding table) bindData.limit passing →
        ∃ hits : List (TableRow X), result = hits.map TableRow.rowId ∧
        IsNearest (bindData.distance values) bindData.limit (tbl.rows.filter fun row =>
          scan.isVisited context row.rowId && row.rowId ∈ passing) hits ∧
        (scan.nProbe = 0 ∨ scan.index.numClusters ≤ scan.nProbe →
          (LogicalOperator.pdxearchIndexFilteredScan tbl bindData columnIds tableIndex rowIdColumn
            child).Produces values (hits.map (emit values columnIds
              (generateColumnBindings tableIndex columnIds.length))))) := by
  have hlimit : scan.k = bindData.limit :=
    (GlobalFilteredScan.k_eq (hlimit ▸ hk32)).trans hlimit
  obtain ⟨result, hresult, hfills, hiff⟩ := h.filteredSearch_nearest_iff H hf32 hsame hprunes hquery
    hcontext hnodup hsub hlt (hlimit ▸ hk) scan.nProbe
  rw [hlimit] at hiff
  have hle : ∀ r ∈ passing, ∀ r' ∈ passing, _ ↔ _ := fun r hr r' hr' =>
    h.queryDistance_le_iff hkernel hquery (hsub r hr) (hsub r' hr')
  refine ⟨result, ?_, ?_, fun hharmless => ?_⟩
  · exact GlobalFilteredScan.emitsPassing_of_fills hnodup (fun hprobe r hr =>
      h.isVisited_of_nProbe hsame context _ hprobe (hsub r hr)) hresult hfills
  · rw [← PDXearchWrapperGlobal.findsNearest_congr hle, hiff,
      PDXearchWrapperGlobal.cutsHarmlessly_congr hle]
  · have hnearest := hiff.mpr ((PDXearchWrapperGlobal.cutsHarmlessly_congr hle).mpr hharmless)
    have hperm : passing.Perm (rowIds.filter (· ∈ passing)) := by
      refine (List.perm_ext_iff_of_nodup hnodup (h.nodup.filter _)).mpr fun r => ?_
      rw [List.mem_filter, decide_eq_true_eq]
      exact ⟨fun hr => ⟨hsub r hr, hr⟩, And.right⟩
    rw [PDXearchWrapperGlobal.findsNearest_perm hperm] at hnearest
    obtain ⟨hits, hrows, hvisited, hall⟩ := h.exists_hits hsame hkernel hquery hplans hnearest
    refine ⟨hits, hrows, hvisited, fun hprobe => ⟨input, hits, hinput, ?_, rfl⟩⟩
    simp only [hids.mem_iff]
    exact hall hprobe

/-- Four rows that pass. -/
theorem filteredScan_nearest_iff_line : ∃ result,
    (GlobalFilteredScan.mk 4 (fun _ => 0) 0 (lineGlobal quantizationF32 Real.sqrt)).EmitsPassing
      (SortedQueue (KNNCandidate.distance (K := Real)))
      ⟨StdSort.insertion, Real.sqrt, fun _ => 0, .const (ofReal 0)⟩
      (filterResult linePassing) result ∧
    ∃ hits : List (TableRow Nat), result = hits.map TableRow.rowId ∧
      (LogicalOperator.pdxearchIndexFilteredScan (linePlanTable Real) (lineBindData Real.sqrt 4)
        [columnIdentifierRowId] 0 (.var ⟨0, 0⟩) (lineGet Real)).Produces (lineValues Real)
          (hits.map (emit (lineValues Real) [columnIdentifierRowId] (generateColumnBindings 0 1))) := by
  have hcreated := createdGlobal_line (quantizationF32 (K := Real)) isSqrt_sqrt
  obtain ⟨result, hemits, -, hhits⟩ := hcreated.filteredScan_nearest_iff
    ⟨StdSort.insertion, Real.sqrt, fun _ => 0, .const (ofReal 0)⟩
    ⟨4, fun _ => 0, 0, lineGlobal quantizationF32 Real.sqrt⟩ rfl isKernel_blobDistanceOp
    nofun (plansQuery_line quantizationF32 Real.sqrt 4) rfl four_pos (by decide) (.refl _)
    ((hcreated.prunesLosslessly_iff isSqrt_sqrt).mpr (by decide)) rfl produces_lineGet
    delivered_linePassing.nodup perm_rowIds_lineGet mem_lineRowIds_of_passing (by decide)
    [columnIdentifierRowId] 0 (SortedQueue (KNNCandidate.distance (K := Real)))
  obtain ⟨hits, hrows, -, hproduces⟩ := hhits
    (PDXearchWrapperGlobal.cutsHarmlessly_of_length_le (by decide))
  exact ⟨result, hemits, hits, hrows, hproduces (Or.inl rfl)⟩

end CreatedGlobal

end CreateIndex

end PDXearch
