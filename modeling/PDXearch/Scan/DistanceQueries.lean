import PDXearch.Index.BlobDistance
import PDXearch.Optimizer.ScanOptimizer
import PDXearch.Scan.TableQueries

/-!
# Queries that order by a distance

The plans, the catalog and the operators together: a query orders the rows of a table by the
distance of their embeddings to a constant, an array or a BLOB. If the optimizer has rewritten its
plan to an index scan of an index that was created for the embeddings, the rows that the scan emits,
projected as the query asks, are what the plan of the query may produce.
-/

namespace PDXearch

open Lib ExactFloat

/-! ## Values -/

/-- The values that distances are computed of, and those; the elements of an array are not NULL. -/
inductive SqlValue (K : Type)
  | null
  | rowId (rowId : Nat)
  | float (value : K)
  | array (elements : List K)
  | blob (bytes : List UInt8)
  deriving DecidableEq, Inhabited

section Values

variable {K : Type} [Field K] (fl : Rat → Rat)

/-- `ArrayVector::GetEntry` of a single array. -/
def arrayElements (elements : List K) : Nat → K := fun d => elements.getD d 0

/-- A registered function on any arguments: two arrays of one size, or an array and a BLOB. A call
that fails has no value, nor has one with a NULL. -/
def distanceFunction (operation : (Nat → K) → (Nat → K) → Nat → K) :
    List (SqlValue K) → SqlValue K
  | [.array lhs, .array rhs] =>
    if lhs.length = rhs.length then
      .float (operation (arrayElements lhs) (arrayElements rhs) lhs.length)
    else .null
  | [.blob blob, .array array] | [.array array, .blob blob] =>
    match blobDistance fl operation array.length (some blob) (some (arrayElements array)) with
    | .ok (some distance) => .float distance
    | _ => .null
  | _ => .null

/-- The functions by their names, and the order of the distances. -/
structure ComputesDistances [LinearOrder K] (sqrt : K → K) (values : Values (SqlValue K) K) :
    Prop where
  apply_eq : ∀ name op, distanceOverload name = some op → ∀ args,
    values.apply name args = distanceFunction fl (op sqrt) args
  key_float : ∀ distance, values.key (.float distance) = distance
  key_null : values.key .null = ⊤

/-- The query embedding in `TryOptimize`. The matcher has seen that an array has the dimension of
the index, and a function of NULL is folded before. -/
def queryEmbedding (numDimensions : Nat) : SqlValue K → Option (Nat → K)
  | .blob blob =>
    if blobDimensionCount blob.length ≠ numDimensions then none else some (decodedEmbedding fl blob)
  | .array array => if array.length = numDimensions then some (arrayElements array) else none
  | _ => none

/-! ## The index in the catalog -/

variable {E D : Type}

/-- The embedding of a row, as a value. -/
def CreateIndex.embeddingValue (op : CreateIndex K E D) (embedding : Nat → K) : SqlValue K :=
  .array ((List.range op.numDimensions).map embedding)

/-- What the optimizer sees of an index: its kernel, the names that it matches, and the distance of
a value of the key. -/
def CreateIndex.tableIndex (op : CreateIndex K E D) (kernel : DistanceOp K) (names : List String)
    (matchesType : Expression (Symbol (SqlValue K)) → Bool) (key : IndexKey (Symbol (SqlValue K))) :
    TableIndex (SqlValue K) (Nat → K) K where
  isBoundPdxearch := true
  distanceFunctions := names
  matchesType := matchesType
  key := key
  queryEmbedding := queryEmbedding fl op.numDimensions
  distance query
    | .array array =>
      (kernel op.preprocessor.sqrt query (arrayElements array) op.numDimensions : WithTop K)
    | _ => ⊤

/-- The value of the key in a row of the table. -/
def IndexKey.rowValue (key : IndexKey (Symbol (SqlValue K))) (values : Values (SqlValue K) K)
    (row : TableRow (SqlValue K)) : SqlValue K :=
  key.unboundExpression.eval values.interp fun ref => values.column row (key.denoted ref)

/-- The key of a table: the rows `rowIds` have embeddings, the others NULL. -/
structure CreateIndex.HoldsKey (op : CreateIndex K E D) (table : Nat → Nat → K)
    (rowIds : List Nat) (key : IndexKey (Symbol (SqlValue K))) (values : Values (SqlValue K) K)
    (rows : List (TableRow (SqlValue K))) : Prop where
  hasRow : ∀ r ∈ rowIds, r ∈ rows.map TableRow.rowId
  rowValue_eq : ∀ row ∈ rows, key.rowValue values row =
    if row.rowId ∈ rowIds then op.embeddingValue (table row.rowId) else .null

end Values

/-! ## The distance of the index is that of the query -/

section Distances

variable {K E D : Type} [Field K] {op : CreateIndex K E D} {fl : Rat → Rat} {kernel : DistanceOp K}

theorem arrayElements_map_range (n : Nat) (embedding : Nat → K) {d : Nat} (hd : d < n) :
    arrayElements ((List.range n).map embedding) d = embedding d := by
  simp [arrayElements, hd]

/-- A constant that holds a query. -/
theorem queryEmbedding_cases {n : Nat} {value : SqlValue K} {query : Nat → K}
    (h : queryEmbedding fl n value = some query) :
    (∃ blob, value = .blob blob ∧ blobDimensionCount blob.length = n ∧
      query = decodedEmbedding fl blob) ∨
    ∃ array, value = .array array ∧ array.length = n ∧ query = arrayElements array := by
  unfold queryEmbedding at h
  split at h
  · rename_i blob
    split_ifs at h with hdims
    exact Or.inl ⟨blob, rfl, not_not.mp hdims, (Option.some.inj h).symm⟩
  · rename_i array
    split_ifs at h with hlength
    exact Or.inr ⟨array, rfl, hlength, (Option.some.inj h).symm⟩
  · cases h

variable {operation : (Nat → K) → (Nat → K) → Nat → K}

/-- The distance of such a constant and an embedding, -/
theorem distanceFunction_query (hcomm : ∀ lhs rhs n, operation lhs rhs n = operation rhs lhs n)
    {n : Nat} {value : SqlValue K} {query : Nat → K} (h : queryEmbedding fl n value = some query)
    {array : List K} (hlength : array.length = n) :
    distanceFunction fl operation [value, .array array] =
        .float (operation query (arrayElements array) n) ∧
      distanceFunction fl operation [.array array, value] =
        .float (operation query (arrayElements array) n) := by
  subst hlength
  rcases queryEmbedding_cases h with ⟨blob, rfl, hdims, rfl⟩ | ⟨lhs, rfl, hlhs, rfl⟩
  · simp [distanceFunction, blobDistance, hdims]
  · rw [distanceFunction, distanceFunction, if_pos hlhs, if_pos hlhs.symm, hlhs,
      hcomm (arrayElements array)]
    exact ⟨rfl, rfl⟩

/-- and of a constant and NULL. -/
theorem distanceFunction_null {n : Nat} {value : SqlValue K} {query : Nat → K}
    (h : queryEmbedding fl n value = some query) :
    distanceFunction fl operation [value, .null] = .null ∧
      distanceFunction fl operation [.null, value] = .null := by
  rcases queryEmbedding_cases h with ⟨blob, rfl, -⟩ | ⟨lhs, rfl, -⟩
  · exact ⟨rfl, rfl⟩
  · exact ⟨rfl, rfl⟩

end Distances

section Plans

variable {K E D : Type} [Field K] [LinearOrder K] {op : CreateIndex K E D} {fl : Rat → Rat}
  {metric : DistanceMetric} {kernel : DistanceOp K} {names : List String}
  {matchesType : Expression (Symbol (SqlValue K)) → Bool} {key : IndexKey (Symbol (SqlValue K))}
  {values : Values (SqlValue K) K} {table : Nat → Nat → K} {rowIds : List Nat}

/-- The names of an index are those of its kernel. -/
theorem distanceOverload_of_isKernel (hkernel : metric.IsKernel kernel)
    (hnames : names ∈ metric.distanceFunctions) {name : String} (hname : name ∈ names) :
    distanceOverload name = some kernel := by
  rcases hkernel.cases with ⟨rfl, rfl⟩ | ⟨rfl, rfl⟩
  · exact (distanceOverload_of_mem hnames hname).elim And.right nofun
  · exact (distanceOverload_of_mem hnames hname).elim nofun And.right

/-- A name that is registered with a kernel. -/
theorem DistanceMetric.IsKernel.exists_name (hkernel : metric.IsKernel kernel) :
    ∃ name, distanceOverload name = some kernel := by
  obtain ⟨_, -, name, -, hname⟩ := hkernel
  exact ⟨name, hname⟩

namespace CreateIndex.HoldsKey

variable {bindData : ScanBindData (SqlValue K) (Nat → K) K}

/-- The plan sees the embeddings of the table through the key. -/
theorem plansQuery {tbl : Table (SqlValue K) (Nat → K) K}
    (h : op.HoldsKey table rowIds key values tbl.rows) (hkernel : metric.IsKernel kernel)
    (hindex : bindData.index = op.tableIndex fl kernel names matchesType key) :
    op.PlansQuery kernel bindData.queryEmbedding table rowIds values tbl bindData where
  hasRow := h.hasRow
  distance_eq row hrow := by
    obtain ⟨name, hname⟩ := hkernel.exists_name
    have hvalue : bindData.distance values row =
        (op.tableIndex fl kernel names matchesType key).distance bindData.queryEmbedding
          (key.rowValue values row) := by
      rw [ScanBindData.distance, hindex]
      rfl
    rw [hvalue, h.rowValue_eq row hrow]
    split_ifs
    · refine congrArg WithTop.some ?_
      exact readsElements_of_distanceOverload hname _ _ _ _ _ _ (fun _ _ => rfl)
        fun d hd => arrayElements_map_range _ _ hd
    · rfl

/-- The search of the index is exact for the plan. -/
theorem exactSearch {q : OrderedScan (SqlValue K) (Nat → K) K}
    (h : op.HoldsKey table rowIds key values q.get.table.rows)
    (hvalues : ComputesDistances fl op.preprocessor.sqrt values) (hkernel : metric.IsKernel kernel)
    (hnames : names ∈ metric.distanceFunctions)
    (hindex : bindData.index = op.tableIndex fl kernel names matchesType key)
    (hbinds : key.BindsDenotedColumns q.get.tableIndex q.get.columnIds) (hbound : q.plan.Bound)
    {ref : ColumnBinding} (hexpr : q.order.expression = .var ref)
    (hfind : findIndex q.limit q.get (q.expressions.getD ref.columnIndex default) = some bindData) :
    q.ExactSearch values := by
  intro ref' hexpr' bindData' hfind' row hrow
  obtain rfl : ref = ref' := Term.var.inj (hexpr.symm.trans hexpr')
  obtain rfl : bindData = bindData' := Option.some.inj (hfind.symm.trans hfind')
  refine q.distance_eq_rowKey hbound hexpr hfind (hindex ▸ hbinds) row ?_
  rw [hindex]
  intro name hname value hquery x hx
  have hoverload := distanceOverload_of_isKernel hkernel hnames hname
  rw [hvalues.apply_eq name kernel hoverload, hvalues.apply_eq name kernel hoverload]
  obtain rfl := hx.trans (h.rowValue_eq row hrow)
  split_ifs
  · have hlength : ((List.range op.numDimensions).map (table row.rowId)).length =
        op.numDimensions := by simp
    obtain ⟨hleft, hright⟩ :=
      distanceFunction_query (distanceOverload_comm hoverload _) hquery hlength
    rw [embeddingValue, hleft, hright, hvalues.key_float]
    exact ⟨rfl, rfl⟩
  · obtain ⟨hleft, hright⟩ := distanceFunction_null hquery
    rw [hleft, hright, hvalues.key_null]
    exact ⟨rfl, rfl⟩

end CreateIndex.HoldsKey

end Plans

/-! ## The rewritten plan, executed -/

section Rewritten

variable {X Q D : Type} [DecidableEq X] [Inhabited X]

omit [Inhabited X] in
/-- What is known of a plan that has become an index scan. -/
theorem exists_of_tryOptimize_indexScan {q : OrderedScan X Q D} {tbl : Table X Q D}
    {bindData : ScanBindData X Q D} {columnIds : List Nat} {tableIndex : Nat}
    (h : tryOptimize false q.plan = some (.projection q.tableIndex q.expressions
      (.pdxearchIndexScan tbl bindData columnIds tableIndex))) :
    q.order.type = .ascending ∧ q.get.function = .seqScan ∧ q.get.tableFilters.isEmpty ∧
      tbl = q.get.table ∧ ∃ ref, q.order.expression = .var ref ∧
        findIndex q.limit q.get (q.expressions.getD ref.columnIndex default) = some bindData := by
  obtain ⟨q', hq, htype, hfunction, ref, bindData', hexpr, hfind, hplan⟩ := exists_of_tryOptimize h
  obtain rfl := OrderedScan.plan_injective hq
  obtain ⟨-, -, hscan⟩ := LogicalOperator.projection.inj hplan
  split_ifs at hscan with hempty
  · obtain ⟨rfl, rfl, -⟩ := LogicalOperator.pdxearchIndexScan.inj hscan
    exact ⟨htype, hfunction, hempty, rfl, ref, hexpr, hfind⟩
  · cases hscan

omit [Inhabited X] in
/-- What is known of a plan that has become a filtered index scan. -/
theorem exists_of_tryOptimize_filteredScan {q : OrderedScan X Q D} {globalVersion : Bool}
    {tbl : Table X Q D} {bindData : ScanBindData X Q D} {columnIds : List Nat} {tableIndex : Nat}
    {rowIdColumn : Expression (Symbol X)} {child : LogicalOperator X Q D}
    (h : tryOptimize globalVersion q.plan = some (.projection q.tableIndex q.expressions
      (.pdxearchIndexFilteredScan tbl bindData columnIds tableIndex rowIdColumn child))) :
    q.get.function = .seqScan ∧ filteredScan q.get bindData =
        .pdxearchIndexFilteredScan tbl bindData columnIds tableIndex rowIdColumn child ∧
      ∃ ref, q.order.expression = .var ref ∧
        findIndex q.limit q.get (q.expressions.getD ref.columnIndex default) = some bindData := by
  obtain ⟨q', hq, -, hfunction, ref, bindData', hexpr, hfind, hplan⟩ := exists_of_tryOptimize h
  obtain rfl := OrderedScan.plan_injective hq
  obtain ⟨-, -, hscan⟩ := LogicalOperator.projection.inj hplan
  split_ifs at hscan
  · cases globalVersion with
    | true => cases hscan
    | false => cases hscan
  · obtain ⟨-, rfl, -⟩ := LogicalOperator.pdxearchIndexFilteredScan.inj hscan
    exact ⟨hfunction, hscan.symm, ref, hexpr, hfind⟩

variable [LinearOrder D] {values : Values X D}

omit [DecidableEq X] in
/-- What the child of a filtered index scan produces are the row ids of the rows that pass. -/
theorem passing_of_filteredScan {get : LogicalGet X Q D} {tbl : Table X Q D}
    {bindData : ScanBindData X Q D} {columnIds : List Nat} {tableIndex : Nat}
    {rowIdColumn : Expression (Symbol X)} {child : LogicalOperator X Q D}
    (h : filteredScan get bindData =
      .pdxearchIndexFilteredScan tbl bindData columnIds tableIndex rowIdColumn child)
    (hfunction : get.function = .seqScan) {input : List (List X)}
    (hinput : child.Produces values input) {rowIds : List Nat}
    (hids : (input.map fun out => values.toRowId (rowIdColumn.eval values.interp
      (lookup child.columnBindings out))).Perm rowIds) :
    tbl = get.table ∧
      (tbl.rows.filter fun row => row.rowId ∈ rowIds) = get.passing values := by
  obtain ⟨rfl, -, -, -, rfl, rfl⟩ := LogicalOperator.pdxearchIndexFilteredScan.inj h
  simp only [LogicalOperator.Produces, hfunction] at hinput
  obtain ⟨rows, hrows, rfl⟩ := hinput
  have hread : (rows.map TableRow.rowId).Perm rowIds := by
    rw [← map_toRowId_emit get rows]
    exact hids
  refine ⟨rfl, ?_⟩
  simp only [← hread.mem_iff]
  exact filter_rowId_mem hrows

/-- The slice that the plan asks for is the nearest rows, whatever the ties. -/
def OrderedScan.AsksForNearest (values : Values X D) (q : OrderedScan X Q D) : Prop :=
  SliceIsNearest q.order.nullOrder q.limit q.offset
    ((q.get.passing values : Multiset (TableRow X)).filter fun row =>
      q.rowKey values row ≠ ⊤).card
    ((q.get.passing values : Multiset (TableRow X)).filter fun row =>
      ¬ q.rowKey values row ≠ ⊤).card
    (ties (q.rowKey values) (q.get.passing values : Multiset (TableRow X)))

/-- The projections of the nearest of the passing rows, in the rewritten plan and in the plan. -/
theorem OrderedScan.produces_of_isNearest {q : OrderedScan X Q D} {globalVersion : Bool}
    {plan' : LogicalOperator X Q D} {bindData : ScanBindData X Q D} (hbound : q.plan.Bound)
    (hexact : q.ExactSearch values) (h : tryOptimize globalVersion q.plan = some plan')
    {ref : ColumnBinding} (hexpr : q.order.expression = .var ref)
    (hfind : findIndex q.limit q.get (q.expressions.getD ref.columnIndex default) = some bindData)
    {hits : List (TableRow X)}
    (hhits : IsNearest (bindData.distance values) bindData.limit (q.get.passing values) hits) :
    plan'.Produces values (hits.map (q.project values)) ∧
      (q.AsksForNearest values → q.plan.Produces values (hits.map (q.project values))) := by
  obtain ⟨q', hq, htype, hfunction, -⟩ := exists_of_tryOptimize h
  obtain rfl := plan_injective hq
  have hkey : ∀ row ∈ (q.get.passing values : Multiset (TableRow X)),
      q.outputKey values (q.project values row) = bindData.distance values row := fun row hrow =>
    (hexact ref hexpr bindData hfind row
      (List.mem_of_mem_filter (Multiset.mem_coe.mp hrow))).symm
  have hnearest : IsNearest (q.outputKey values) q.limit
      ((q.get.passing values : Multiset (TableRow X)).map (q.project values))
      (hits.map (q.project values)) := by
    rw [← (matches_of_findIndex hfind).limit]
    exact (isNearest_map_iff hkey).mpr ⟨hits, hhits, rfl⟩
  refine ⟨(q.produces_rewritten_iff hbound hexact h _).mpr hnearest, fun hslice => ?_⟩
  have hrowKey : ∀ row ∈ (q.get.passing values : Multiset (TableRow X)),
      q.outputKey values (q.project values row) = q.rowKey values row := fun _ _ => rfl
  rw [q.produces_plan_iff hbound htype hfunction]
  exact ((isNearest_map_iff_isTopN_map _ _ _ hrowKey).mpr hslice _).mp hnearest

end Rewritten

/-! ## A query on a table of two full row groups -/

section Line

/-- Values with the distance functions and nothing else; what is not a distance is not ordered. -/
def distanceValues {K : Type} [Field K] [LinearOrder K] (fl : Rat → Rat) (sqrt : K → K) :
    Values (SqlValue K) K where
  apply name args := match distanceOverload (K := K) name with
    | some op => distanceFunction fl (op sqrt) args
    | none => .null
  key
    | .float distance => distance
    | _ => ⊤
  rowId := .rowId
  toRowId
    | .rowId rowId => rowId
    | _ => 0
  toRowId_rowId _ := rfl

theorem computesDistances_distanceValues {K : Type} [Field K] [LinearOrder K] (fl : Rat → Rat)
    (sqrt : K → K) : ComputesDistances fl sqrt (distanceValues fl sqrt) where
  apply_eq name op hname args := by simp only [distanceValues, hname]
  key_float _ := rfl
  key_null := rfl

/-- The index on `vec` of a table with the columns `id` and `vec`. -/
def vecKey : IndexKey (Symbol (SqlValue Real)) where
  columns := [.standard, .standard]
  columnIds := [1]
  unboundExpression := .var ⟨0, 0⟩
  standard := by decide
  inRange := by simp [Term.vars]

/-- The rows with their embeddings. -/
noncomputable def vecRow (rowId : Nat) : TableRow (SqlValue Real) :=
  ⟨rowId, fun _ => .array [lineTable Real rowId 0]⟩

noncomputable def vecTable : Table (SqlValue Real) (Nat → Real) Real where
  isDuckTable := true
  indexes := [lineIndexF32.tableIndex id blobDistanceOp ["array_distance", "<->"] (fun _ => true)
    vecKey]
  rows := lineRowIds.map vecRow
  nodup := (map_rowId_line vecRow rfl _).symm ▸ nodup_lineRowIds

/-- `[0]` as `EncodeFloatArrayToBlob` stores it. -/
def zeroBlob : List UInt8 := bytesOfInt16 (packInt16 0 0)

/-- `SELECT blob <-> vec AS distance FROM vecTable ORDER BY distance LIMIT 3` -/
noncomputable def vecScan : OrderedScan (SqlValue Real) (Nat → Real) Real where
  limit := 3
  offset := 0
  order := { type := .ascending, nullOrder := .nullsLast, expression := .var ⟨1, 0⟩ }
  tableIndex := 1
  expressions := [.app (.function "<->") [.app (.constant (.blob zeroBlob)) [], .var ⟨0, 0⟩]]
  get :=
    { function := .seqScan, table := vecTable, tableIndex := 0, columnIds := [1],
      projectionIds := [], tableFilters := [], hasDynamicFilters := false }

noncomputable def vecBindData : ScanBindData (SqlValue Real) (Nat → Real) Real where
  index := lineIndexF32.tableIndex id blobDistanceOp ["array_distance", "<->"] (fun _ => true)
    vecKey
  limit := 3
  queryEmbedding := decodedEmbedding id zeroBlob

theorem tryOptimize_vecScan : tryOptimize false vecScan.plan =
    some (.projection 1 vecScan.expressions (.pdxearchIndexScan vecTable vecBindData [1] 0)) := by
  rfl

theorem vecScan_bound : vecScan.plan.Bound := by
  simp [OrderedScan.plan, vecScan, LogicalOperator.Bound, LogicalOperator.columnBindings,
    LogicalGet.columnBindings, generateColumnBindings, Term.vars, Term.varsList]

theorem bindsDenotedColumns_vecKey : vecKey.BindsDenotedColumns 0 [1] := by
  refine IndexKey.bindsDenotedColumns_of_same fun c hc => ?_
  obtain rfl : c = 1 := by
    simpa [vecKey, IndexKey.keyColumns, Term.vars, IndexKey.denoted, eq_comm] using hc
  rfl

theorem holdsKey_vecTable : lineIndexF32.HoldsKey (lineTable Real) lineRowIds vecKey
    (distanceValues id Real.sqrt) vecTable.rows := by
  refine ⟨fun r hr => ?_, fun row hrow => ?_⟩
  · rwa [vecTable, map_rowId_line vecRow rfl]
  · obtain ⟨r, hr, rfl⟩ := List.mem_map.mp hrow
    refine Eq.trans ?_ (if_pos hr).symm
    rfl

/-- Every row has a distance. -/
theorem rowKey_vecScan : ∀ row ∈ vecTable.rows,
    vecScan.rowKey (distanceValues id Real.sqrt) row ≠ ⊤ := by
  intro row hrow
  obtain ⟨r, -, rfl⟩ := List.mem_map.mp hrow
  obtain ⟨distance, hkey⟩ : ∃ distance : Real,
      vecScan.rowKey (distanceValues id Real.sqrt) (vecRow r) = distance := ⟨_, rfl⟩
  rw [hkey]
  exact WithTop.coe_ne_top

/-- The same, `WHERE rowid IN (1, 2, 122880, 122881)`. -/
noncomputable def vecFilteredScan : OrderedScan (SqlValue Real) (Nat → Real) Real :=
  { vecScan with
    get := { vecScan.get with
      tableFilters := [(columnIdentifierRowId, fun
        | .rowId rowId => rowId ∈ filterResult linePassing
        | _ => false)] } }

/-- The table scan that produces the row ids. -/
noncomputable def vecRowIds : LogicalOperator (SqlValue Real) (Nat → Real) Real :=
  .get { vecFilteredScan.get with columnIds := [columnIdentifierRowId], projectionIds := [0] }

theorem tryOptimize_vecFilteredScan : tryOptimize false vecFilteredScan.plan =
    some (.projection 1 vecFilteredScan.expressions
      (.pdxearchIndexFilteredScan vecTable vecBindData [1] 0 (.var ⟨0, 0⟩) vecRowIds)) := by
  rfl

theorem vecFilteredScan_bound : vecFilteredScan.plan.Bound := vecScan_bound

theorem produces_vecRowIds : vecRowIds.Produces (distanceValues id Real.sqrt)
    ((filterResult linePassing).map fun rowId => [.rowId rowId]) := by
  refine ⟨(filterResult linePassing).map vecRow, perm_passing_line vecRow fun r => ?_, rfl⟩
  simp [LogicalGet.passes, vecFilteredScan, Values.column, distanceValues, vecRow]

end Line

section Operators

namespace CreateIndex.Created

variable {K : Type} [Field K] [LinearOrder K] [IsStrictOrderedRing K]
  {op : CreateIndex K K (ExactFloat K)} {metric : DistanceMetric} {table : Nat → Nat → K}
  {rowIds : List Nat} {w w' : PDXearchWrapperParallel K K (ExactFloat K)} {kernel : DistanceOp K}
  {names : List String} {matchesType : Expression (Symbol (SqlValue K)) → Bool}
  {key : IndexKey (Symbol (SqlValue K))} {values : Values (SqlValue K) K} {fl : Rat → Rat}

/-- The rows that a finished run of the index scan has emitted answer the query: the rewritten plan
may produce them, and the plan too if the slice that it asks for is the nearest rows. -/
theorem query_answered (h : op.Created metric table rowIds w)
    (hf32 : op.quantizationOf = quantizationF32) (hkernel : metric.IsKernel kernel)
    (hnames : names ∈ metric.distanceFunctions)
    (hvalues : ComputesDistances fl op.preprocessor.sqrt values)
    {q : OrderedScan (SqlValue K) (Nat → K) K} (hbound : q.plan.Bound)
    (hholds : op.HoldsKey table rowIds key values q.get.table.rows)
    (hbinds : key.BindsDenotedColumns q.get.tableIndex q.get.columnIds)
    {tbl : Table (SqlValue K) (Nat → K) K} {bindData : ScanBindData (SqlValue K) (Nat → K) K}
    {columnIds : List Nat} {tableIndex : Nat}
    (hrewrite : tryOptimize false q.plan = some (.projection q.tableIndex q.expressions
      (.pdxearchIndexScan tbl bindData columnIds tableIndex)))
    (hindex : bindData.index = op.tableIndex fl kernel names matchesType key)
    (hquery : metric.Defined op.numDimensions bindData.queryEmbedding)
    (hsame : w'.SameIndex w) (hfilled : w'.Filled)
    (hslots : ∀ r ∈ rowIds, getRowGroupId r < w'.numRowGroups) (hlt : ∀ r ∈ rowIds, r < 2 ^ 32)
    (hpruners : w'.PrunersKeep 1) (hk : 0 < bindData.limit) (hbits : bindData.limit < 2 ^ 32)
    {nProbe : Nat}
    (hprobe : nProbe = 0 ∨ w'.numClustersPerRowGroup ≤ nProbe)
    {std : StdSort} {H : Type} [Heap H K] {arrays : Fin w'.numRowGroups → ProbeState (ExactFloat K)}
    {threads : Nat} {tr : List (ScanSourceAction threads)}
    {s : ScanSourceState K H w'.numRowGroups threads}
    (hrun : ((h.scannable hsame hfilled hslots hlt hpruners.fit).scan bindData.limit
      (op.preprocess bindData.queryEmbedding) nProbe).SourceRun std arrays tr s)
    (hfinished : ∃ i, s.getData i = .finished) :
    ∃ hits : List (TableRow (SqlValue K)), hits ⊆ q.get.table.rows ∧
      (ParallelScan.outputs tr).flatten = hits.map TableRow.rowId ∧
      (LogicalOperator.projection q.tableIndex q.expressions (.pdxearchIndexScan tbl bindData
        columnIds tableIndex)).Produces values (hits.map (q.project values)) ∧
      (q.AsksForNearest values → q.plan.Produces values (hits.map (q.project values))) := by
  obtain ⟨-, -, hempty, rfl, ref, hexpr, hfind⟩ := exists_of_tryOptimize_indexScan hrewrite
  obtain ⟨hits, -, hcomplete, -, hall⟩ := h.exists_scan_hits hf32 hkernel hquery
    (hholds.plansQuery hkernel hindex) hsame hfilled hslots hlt hpruners hk hbits nProbe
    hrun
  have hnearest := hall hprobe
  have hexact := hholds.exactSearch hvalues hkernel hnames hindex hbinds hbound hexpr hfind
  refine ⟨hits, fun row hrow => ?_, hcomplete hfinished,
    q.produces_of_isNearest hbound hexact hrewrite hexpr hfind ?_⟩
  · exact Multiset.mem_coe.mp (mem_of_isNearest hnearest hrow)
  · rwa [q.get.passing_of_isEmpty values hempty]

/-- Two threads, after the last call of each. -/
theorem query_answered_line : ∃ (w : PDXearchWrapperParallel Real Real (ExactFloat Real))
    (hscan : w.Scannable lineIndexF32.ctx quantizationF32 lineRowIds)
    (tr : List (ScanSourceAction 2))
    (s : ScanSourceState Real (SortedQueue (KNNCandidate.distance (K := Real))) w.numRowGroups 2),
    lineIndexF32.Created .l2sq (lineTable Real) lineRowIds w ∧ w.numRowGroups = 2 ∧
    (hscan.scan 3 (lineIndexF32.preprocess vecBindData.queryEmbedding) 0).SourceRun .insertion
      (fun _ => .const (ofReal 0)) tr s ∧ (∀ i, s.getData i = .finished) ∧
    ∃ hits : List (TableRow (SqlValue Real)), hits ⊆ vecTable.rows ∧
      (ParallelScan.outputs tr).flatten = hits.map TableRow.rowId ∧
      vecScan.plan.Produces (distanceValues id Real.sqrt)
        (hits.map (vecScan.project (distanceValues id Real.sqrt))) := by
  obtain ⟨w, hcreated, hfilled, htwo, hslots, hpruners⟩ := created_line quantizationF32 isSqrt_sqrt
  have hscan := hcreated.scannable (.refl w) hfilled hslots lt_of_mem_lineRowIds hpruners.fit
  obtain ⟨tr, s, hrun, hall⟩ := ParallelScan.exists_sourceRun_finished (htwo ▸ two_pos)
    (hscan.scan 3 (lineIndexF32.preprocess vecBindData.queryEmbedding) 0) StdSort.insertion
    (fun _ => .const (ofReal 0)) (SortedQueue (KNNCandidate.distance (K := Real))) 2
  obtain ⟨hits, hsub, hids, -, hanswers⟩ := hcreated.query_answered rfl isKernel_blobDistanceOp rfl
    (computesDistances_distanceValues id _) vecScan_bound holdsKey_vecTable
    bindsDenotedColumns_vecKey tryOptimize_vecScan rfl nofun (.refl w) hfilled hslots
    lt_of_mem_lineRowIds hpruners three_pos (by decide) (Or.inl rfl) hrun ⟨0, hall 0⟩
  refine ⟨w, hscan, tr, s, hcreated, htwo, hrun, hall, hits, hsub, hids,
    hanswers (Or.inr (Or.inl ⟨rfl, Or.inr ?_⟩))⟩
  refine Multiset.card_eq_zero.mpr (Multiset.filter_eq_nil.mpr fun row hrow => not_not.mpr ?_)
  exact rowKey_vecScan row (List.mem_of_mem_filter (Multiset.mem_coe.mp hrow))

/-- The same for the filtered scan, over whatever its child has produced, provided that all rows
that pass have embeddings. -/
theorem filteredQuery_answered (h : op.Created metric table rowIds w)
    (hf32 : op.quantizationOf = quantizationF32) (hkernel : metric.IsKernel kernel)
    (hnames : names ∈ metric.distanceFunctions)
    (hvalues : ComputesDistances fl op.preprocessor.sqrt values)
    {q : OrderedScan (SqlValue K) (Nat → K) K} (hbound : q.plan.Bound)
    (hholds : op.HoldsKey table rowIds key values q.get.table.rows)
    (hbinds : key.BindsDenotedColumns q.get.tableIndex q.get.columnIds) {globalVersion : Bool}
    {tbl : Table (SqlValue K) (Nat → K) K} {bindData : ScanBindData (SqlValue K) (Nat → K) K}
    {columnIds : List Nat} {tableIndex : Nat} {rowIdColumn : Expression (Symbol (SqlValue K))}
    {child : LogicalOperator (SqlValue K) (Nat → K) K}
    (hrewrite : tryOptimize globalVersion q.plan = some (.projection q.tableIndex q.expressions
      (.pdxearchIndexFilteredScan tbl bindData columnIds tableIndex rowIdColumn child)))
    (hindex : bindData.index = op.tableIndex fl kernel names matchesType key)
    (hquery : metric.Defined op.numDimensions bindData.queryEmbedding)
    {scan : FilteredScan K K (ExactFloat K)} (hsame : scan.index.SameIndex w)
    (hpreprocessed : scan.preprocessedQueryEmbedding = op.preprocess bindData.queryEmbedding)
    (hlimit : scan.limit = bindData.limit) (hk : 0 < bindData.limit)
    (hbits : bindData.limit < 2 ^ 32)
    (hpruners : FilteredScan.LosslessPruners scan.index) {input : List (List (SqlValue K))}
    (hinput : child.Produces values input) {threads : Nat}
    {inputChunks : Fin threads → List (List Nat)} (hdelivered : Delivered inputChunks)
    (hids : (input.map fun out => values.toRowId (rowIdColumn.eval values.interp
      (lookup child.columnBindings out))).Perm (filterResult inputChunks))
    (hsub : ∀ r ∈ filterResult inputChunks, r ∈ rowIds)
    (hlt : ∀ r ∈ filterResult inputChunks, r < 2 ^ 32) {std : StdSort} {H : Type} [Heap H K]
    {arrays : Nat → Nat → ProbeState (ExactFloat K)} {tr : List (ScanEvent K)} {n : Nat} {heap : H}
    {emitted : List Nat}
    (hrun : scan.Run arrays (scan.start std arrays H inputChunks) tr (.source n heap emitted))
    (hprobe : scan.nProbe = 0 ∨ scan.index.numClustersPerRowGroup ≤ scan.nProbe ∨
      emitted.length < bindData.limit) :
    ∃ hits : List (TableRow (SqlValue K)), hits ⊆ q.get.passing values ∧
      emitted = hits.map TableRow.rowId ∧
      (LogicalOperator.projection q.tableIndex q.expressions (.pdxearchIndexFilteredScan tbl
        bindData columnIds tableIndex rowIdColumn child)).Produces values
          (hits.map (q.project values)) ∧
      (q.AsksForNearest values → q.plan.Produces values (hits.map (q.project values))) := by
  obtain ⟨hfunction, hoperator, ref, hexpr, hfind⟩ := exists_of_tryOptimize_filteredScan hrewrite
  obtain ⟨rfl, hpassing⟩ := passing_of_filteredScan hoperator hfunction hinput hids
  obtain ⟨hits, hemitted, -, hall⟩ := h.exists_filteredScan_hits hf32 hkernel hquery
    (hholds.plansQuery hkernel hindex) hsame hpreprocessed hlimit hk hbits hpruners hdelivered hsub
    hlt hrun
  have hnearest := hpassing ▸ hall hprobe
  have hexact := hholds.exactSearch hvalues hkernel hnames hindex hbinds hbound hexpr hfind
  refine ⟨hits, fun row hrow => ?_, hemitted,
    q.produces_of_isNearest hbound hexact hrewrite hexpr hfind hnearest⟩
  exact Multiset.mem_coe.mp (mem_of_isNearest hnearest hrow)

/-- Two threads that are given passing rows of one row group each. -/
theorem filteredQuery_answered_line :
    ∃ (w : PDXearchWrapperParallel Real Real (ExactFloat Real)) (tr : List (ScanEvent Real))
    (n : Nat) (heap : SortedQueue (KNNCandidate.distance (K := Real))) (emitted : List Nat),
    lineIndexF32.Created .l2sq (lineTable Real) lineRowIds w ∧ w.numRowGroups = 2 ∧
    (FilteredScan.mk 3 (lineIndexF32.preprocess vecBindData.queryEmbedding) 0 w).Run
      (fun _ _ => .const (ofReal 0))
      ((FilteredScan.mk 3 (lineIndexF32.preprocess vecBindData.queryEmbedding) 0 w).start
        .insertion (fun _ _ => .const (ofReal 0))
        (SortedQueue (KNNCandidate.distance (K := Real))) linePassing)
      tr (.source n heap emitted) ∧
    ∃ hits : List (TableRow (SqlValue Real)), hits ⊆ vecTable.rows ∧
      emitted = hits.map TableRow.rowId ∧
      vecFilteredScan.plan.Produces (distanceValues id Real.sqrt)
        (hits.map (vecFilteredScan.project (distanceValues id Real.sqrt))) := by
  obtain ⟨w, hcreated, -, htwo, -, hpruners⟩ := created_line quantizationF32 isSqrt_sqrt
  have hlossless : FilteredScan.LosslessPruners w := hpruners
  have hids : (((filterResult linePassing).map fun rowId => [.rowId rowId]).map fun out =>
      (distanceValues id Real.sqrt).toRowId ((.var ⟨0, 0⟩ : Expression (Symbol _)).eval
        (distanceValues id Real.sqrt).interp (lookup vecRowIds.columnBindings out))).Perm
      (filterResult linePassing) := by
    rw [List.map_map]
    exact .of_eq (List.map_id _)
  obtain ⟨tr, n, heap, emitted, hrun⟩ := exists_filteredRun_line hcreated
    (lineIndexF32.preprocess vecBindData.queryEmbedding)
  obtain ⟨hits, hsub, hemitted, -, hanswers⟩ := hcreated.filteredQuery_answered rfl
    isKernel_blobDistanceOp rfl (computesDistances_distanceValues id _) vecFilteredScan_bound
    holdsKey_vecTable bindsDenotedColumns_vecKey tryOptimize_vecFilteredScan rfl nofun (.refl w) rfl
    rfl three_pos (by decide) hlossless produces_vecRowIds delivered_linePassing hids
    mem_lineRowIds_of_passing (by decide) hrun (Or.inl rfl)
  have hrows : hits ⊆ vecTable.rows := fun row hrow => List.mem_of_mem_filter (hsub hrow)
  refine ⟨w, tr, n, heap, emitted, hcreated, htwo, hrun, hits, hrows, hemitted,
    hanswers (Or.inr (Or.inl ⟨rfl, Or.inr ?_⟩))⟩
  refine Multiset.card_eq_zero.mpr (Multiset.filter_eq_nil.mpr fun row hrow => not_not.mpr ?_)
  exact rowKey_vecScan row (List.mem_of_mem_filter (Multiset.mem_coe.mp hrow))

end CreateIndex.Created

end Operators

end PDXearch
