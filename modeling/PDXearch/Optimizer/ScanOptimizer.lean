import PDXearch.Optimizer.Plan

/-!
# The scan optimizer

`TryOptimize` looks for a TopN over a projection over a table scan that orders by the distance of an
indexed expression to a constant, takes the TopN away and lets an index scan produce the rows in
order. It hands the limit of the TopN on to the index, but neither its offset nor the place of the
rows without a distance.
-/

namespace PDXearch

open Lib

variable {X Q D : Type} [DecidableEq X] [Inhabited X]

/-- The value of a constant. -/
def constantValue? : Expression (Symbol X) → Option X
  | .app (.constant value) _ => some value
  | _ => none

/-- One iteration of the search for an index: the projected expression must be a distance function of
the index, of a constant query and of the index expression, in either order. -/
def matchIndex (limit : Nat) (get : LogicalGet X Q D) (projectionExpr : Expression (Symbol X))
    (index : TableIndex X Q D) : Option (ScanBindData X Q D) :=
  if index.isBoundPdxearch then
    match projectionExpr with
    | .app (.function name) [lhs, rhs] =>
      if name ∈ index.distanceFunctions ∧ index.matchesType lhs ∧ index.matchesType rhs then
        match index.key.tryBindIndexExpression get.tableIndex get.columnIds with
        | none => none
        | some indexExpr =>
          let matched :=
            if indexExpr = rhs ∧ (constantValue? lhs).isSome then constantValue? lhs
            else if indexExpr = lhs then constantValue? rhs else none
          matched.bind fun value => (index.queryEmbedding value).map fun queryEmbedding =>
            { index := index, limit := limit, queryEmbedding := queryEmbedding }
      else none
    | _ => none
  else none

def findIndex (limit : Nat) (get : LogicalGet X Q D) (projectionExpr : Expression (Symbol X)) :
    Option (ScanBindData X Q D) :=
  get.table.indexes.findSome? (matchIndex limit get projectionExpr)

/-- Scenario 1: the scan becomes an index scan. -/
def nonFilteredScan (globalVersion : Bool) (get : LogicalGet X Q D)
    (bindData : ScanBindData X Q D) : LogicalOperator X Q D :=
  if globalVersion then
    .get { get with function := .pdxearchIndexScan bindData }
  else .pdxearchIndexScan get.table bindData get.columnIds get.tableIndex

/-- The columns of a scan that needs only those of its filters and the row id, and the position of the
row id column (`rowid_pos`). -/
def rowIdColumns (filterColumnIds : List Nat) : List Nat × Nat :=
  match filterColumnIds.findIdx? fun columnId => columnId = columnIdentifierRowId with
  | some i => (filterColumnIds, i)
  | none => (filterColumnIds ++ [columnIdentifierRowId], filterColumnIds.length)

/-- Scenario 2: the scan is made to produce the row ids that pass the filters, and a filtered index
scan is put on top of it. -/
def filteredScan (get : LogicalGet X Q D) (bindData : ScanBindData X Q D) :
    LogicalOperator X Q D :=
  let (columnIds, rowidPos) := rowIdColumns (get.tableFilters.map Prod.fst)
  .pdxearchIndexFilteredScan get.table bindData get.columnIds get.tableIndex
    (.var ⟨get.tableIndex, rowidPos⟩)
    (.get { get with columnIds := columnIds, projectionIds := [rowidPos] })

/-- `TryOptimize`; `globalVersion` is the build option. -/
def tryOptimize (globalVersion : Bool) : LogicalOperator X Q D → Option (LogicalOperator X Q D)
  | .topN limit _ [order] (.projection tableIndex expressions (.get get)) =>
    if order.type ≠ .ascending then none
    else match order.expression, get.function with
      | .var ref, .seqScan =>
        if get.hasDynamicFilters then none
        else if ¬ get.table.isDuckTable then none
        else match findIndex limit get (expressions.getD ref.columnIndex default) with
          | none => none
          | some bindData =>
            if get.tableFilters.isEmpty then
              some (.projection tableIndex expressions (nonFilteredScan globalVersion get bindData))
            else some (.projection tableIndex expressions (filteredScan get bindData))
      | _, _ => none
  | _ => none

/-! ## What is matched -/

/-- What the search for an index finds. -/
structure Matches (limit : Nat) (get : LogicalGet X Q D) (projectionExpr : Expression (Symbol X))
    (bindData : ScanBindData X Q D) : Prop where
  limit : bindData.limit = limit
  index : bindData.index ∈ get.table.indexes
  expression : ∃ name ∈ bindData.index.distanceFunctions, ∃ value args indexExpr,
    bindData.index.queryEmbedding value = some bindData.queryEmbedding ∧
    bindData.index.key.tryBindIndexExpression get.tableIndex get.columnIds = some indexExpr ∧
    (projectionExpr = .app (.function name) [.app (.constant value) args, indexExpr] ∨
      projectionExpr = .app (.function name) [indexExpr, .app (.constant value) args])

omit [DecidableEq X] [Inhabited X] in
theorem eq_of_constantValue? {expression : Expression (Symbol X)} {value : X}
    (h : constantValue? expression = some value) :
    ∃ args, expression = .app (.constant value) args := by
  unfold constantValue? at h
  split at h
  · rename_i args
    obtain rfl := Option.some.inj h
    exact ⟨args, rfl⟩
  · cases h

omit [Inhabited X] in
theorem matches_of_findIndex {limit : Nat} {get : LogicalGet X Q D}
    {projectionExpr : Expression (Symbol X)} {bindData : ScanBindData X Q D}
    (h : findIndex limit get projectionExpr = some bindData) :
    Matches limit get projectionExpr bindData := by
  obtain ⟨index, hindex, hmatch⟩ := List.exists_of_findSome?_eq_some h
  unfold matchIndex at hmatch
  split at hmatch
  case isFalse => cases hmatch
  case isTrue =>
  split at hmatch
  case h_2 => cases hmatch
  case h_1 _ name lhs rhs =>
  split at hmatch
  case isFalse => cases hmatch
  case isTrue hname =>
  split at hmatch
  case h_1 => cases hmatch
  case h_2 indexExpr hbind =>
  obtain ⟨value, hvalue, hmatch⟩ := Option.bind_eq_some_iff.mp hmatch
  obtain ⟨queryEmbedding, hquery, rfl⟩ := Option.map_eq_some_iff.mp hmatch
  refine ⟨rfl, hindex, name, hname.1, value, ?_⟩
  split at hvalue
  · rename_i heq
    obtain ⟨args, rfl⟩ := eq_of_constantValue? hvalue
    exact ⟨args, indexExpr, hquery, hbind, Or.inl (by rw [heq.1])⟩
  · split at hvalue
    · rename_i heq
      obtain ⟨args, rfl⟩ := eq_of_constantValue? hvalue
      exact ⟨args, indexExpr, hquery, hbind, Or.inr (by rw [heq])⟩
    · cases hvalue

/-- A TopN with one order over a projection over a scan: the plans that are looked at. -/
structure OrderedScan (X Q D : Type) where
  limit : Nat
  offset : Nat
  order : OrderByNode X
  tableIndex : Nat
  expressions : List (Expression (Symbol X))
  get : LogicalGet X Q D

namespace OrderedScan

def plan (q : OrderedScan X Q D) : LogicalOperator X Q D :=
  .topN q.limit q.offset [q.order] (.projection q.tableIndex q.expressions (.get q.get))

end OrderedScan

omit [Inhabited X] in
/-- What is known of a plan that has been rewritten. -/
theorem exists_of_tryOptimize {globalVersion : Bool} {plan plan' : LogicalOperator X Q D}
    (h : tryOptimize globalVersion plan = some plan') :
    ∃ q : OrderedScan X Q D, plan = q.plan ∧ q.order.type = .ascending ∧
      q.get.function = .seqScan ∧ ∃ ref bindData, q.order.expression = .var ref ∧
        findIndex q.limit q.get (q.expressions.getD ref.columnIndex default) = some bindData ∧
        plan' = .projection q.tableIndex q.expressions
          (if q.get.tableFilters.isEmpty then nonFilteredScan globalVersion q.get bindData
            else filteredScan q.get bindData) := by
  unfold tryOptimize at h
  split at h
  case h_2 => cases h
  case h_1 limit offset order tableIndex expressions get =>
  refine ⟨⟨limit, offset, order, tableIndex, expressions, get⟩, rfl, ?_⟩
  split at h
  case isTrue => cases h
  case isFalse htype =>
  split at h
  case h_2 => cases h
  case h_1 ref hexpr hfunction =>
  split at h
  case isTrue => cases h
  case isFalse =>
  split at h
  case isTrue => cases h
  case isFalse =>
  split at h
  case h_1 => cases h
  case h_2 bindData hfind =>
  refine ⟨by simpa using htype, hfunction, ref, bindData, hexpr, hfind, ?_⟩
  split at h
  · rename_i hempty
    rw [if_pos hempty]
    exact (Option.some.inj h).symm
  · rename_i hempty
    rw [if_neg hempty]
    exact (Option.some.inj h).symm

/-! ## The rows of the two plans -/

section Rows

variable [LinearOrder D] {values : Values X D}

/-- The value of an expression over a scan. -/
def LogicalGet.value (values : Values X D) (get : LogicalGet X Q D)
    (expression : Expression (Symbol X)) (row : TableRow X) : X :=
  expression.eval values.interp fun ref => values.column row (get.columnIds.getD ref.columnIndex 0)

/-- The rows that pass the filters. -/
def LogicalGet.passing (values : Values X D) (get : LogicalGet X Q D) : List (TableRow X) :=
  get.table.rows.filter (get.passes values)

omit [LinearOrder D] [DecidableEq X] in
theorem eval_emit {get : LogicalGet X Q D} {bindings : List ColumnBinding}
    {expression : Expression (Symbol X)} (row : TableRow X)
    (hrefs : ∀ ref ∈ expression.vars, ref ∈ bindings) :
    expression.eval values.interp (lookup bindings (emit values get.columnIds bindings row)) =
      get.value values expression row :=
  Term.eval_congr values.interp expression fun ref href => lookup_emit row (hrefs ref href)

namespace OrderedScan

variable {q : OrderedScan X Q D}

/-- The output columns of a table row. -/
def project (values : Values X D) (q : OrderedScan X Q D) (row : TableRow X) : List X :=
  q.expressions.map fun expression => q.get.value values expression row

/-- The key by which the plan orders its output, and a table row. -/
def outputKey (values : Values X D) (q : OrderedScan X Q D) : List X → WithTop D :=
  q.order.key values (generateColumnBindings q.tableIndex q.expressions.length)

def rowKey (values : Values X D) (q : OrderedScan X Q D) (row : TableRow X) : WithTop D :=
  q.outputKey values (q.project values row)

omit [LinearOrder D] [DecidableEq X] in
/-- The projection of what any scan emits is the same. -/
theorem map_emit {bindings : List ColumnBinding}
    (hrefs : ∀ expression ∈ q.expressions, ∀ ref ∈ expression.vars, ref ∈ bindings)
    (rows : List (TableRow X)) :
    (rows.map (emit values q.get.columnIds bindings)).map (fun row =>
        q.expressions.map fun expression => expression.eval values.interp (lookup bindings row)) =
      rows.map (q.project values) := by
  rw [List.map_map]
  refine List.map_congr_left fun row _ => ?_
  exact List.map_congr_left fun expression hexpression =>
    eval_emit row (hrefs expression hexpression)

omit [DecidableEq X] in
/-- The plan orders the projections of the rows that pass. -/
theorem produces_plan_iff (hbound : q.plan.Bound) (htype : q.order.type = .ascending)
    (hfunction : q.get.function = .seqScan) (out : List (List X)) :
    q.plan.Produces values out ↔ IsTopN (q.outputKey values) q.order.nullOrder q.limit q.offset
      ((q.get.passing values : Multiset (TableRow X)).map (q.project values)) out := by
  have hbefore : ordersBefore values
      (generateColumnBindings q.tableIndex q.expressions.length) [q.order] =
      q.order.nullOrder.Before (q.outputKey values) := by
    funext a b
    simp [ordersBefore, OrderByNode.before, htype, outputKey]
  have hrefs : ∀ expression ∈ q.expressions, ∀ ref ∈ expression.vars,
      ref ∈ q.get.columnBindings := hbound.1.2
  have hprojection : ∀ input : List (List X),
      (LogicalOperator.projection q.tableIndex q.expressions (.get q.get)).Produces values input ↔
        (input : Multiset (List X)) =
          (q.get.passing values : Multiset (TableRow X)).map (q.project values) := by
    intro input
    simp only [LogicalOperator.Produces, hfunction]
    constructor
    · rintro ⟨-, ⟨rows, hrows, rfl⟩, rfl⟩
      rw [LogicalOperator.columnBindings, map_emit hrefs, ← Multiset.map_coe]
      exact congrArg _ (Multiset.coe_eq_coe.mpr hrows)
    · intro hinput
      obtain ⟨rows, hrows, rfl⟩ := exists_map_eq hinput
      refine ⟨_, ⟨rows, Multiset.coe_eq_coe.mp hrows, rfl⟩, ?_⟩
      rw [LogicalOperator.columnBindings, map_emit hrefs]
  rw [plan, LogicalOperator.Produces, LogicalOperator.columnBindings, hbefore, IsTopN]
  constructor
  · rintro ⟨input, sorted, hinput, hperm, hsorted, rfl⟩
    refine ⟨sorted, ?_, hsorted, rfl⟩
    rw [← (hprojection input).mp hinput]
    exact Multiset.coe_eq_coe.mpr hperm
  · rintro ⟨sorted, hs, hsorted, rfl⟩
    exact ⟨sorted, sorted, (hprojection sorted).mpr hs, List.Perm.refl _, hsorted, rfl⟩

omit [DecidableEq X] in
/-- Over any operator that emits the nearest rows, the projection produces their projections. -/
theorem produces_projection_iff {child : LogicalOperator X Q D} {bindings : List ColumnBinding}
    {bindData : ScanBindData X Q D} (hbindings : child.columnBindings = bindings)
    (hrefs : ∀ expression ∈ q.expressions, ∀ ref ∈ expression.vars, ref ∈ bindings)
    (hchild : ∀ out, child.Produces values out ↔ ∃ hits : List (TableRow X),
      IsNearest (bindData.distance values) q.limit (q.get.passing values) hits ∧
      out = hits.map (emit values q.get.columnIds bindings))
    (hdistance : ∀ row ∈ q.get.table.rows, bindData.distance values row = q.rowKey values row)
    (out : List (List X)) :
    (LogicalOperator.projection q.tableIndex q.expressions child).Produces values out ↔
      IsNearest (q.outputKey values) q.limit
        ((q.get.passing values : Multiset (TableRow X)).map (q.project values)) out := by
  have hkey : ∀ row ∈ (q.get.passing values : Multiset (TableRow X)),
      q.outputKey values (q.project values row) = bindData.distance values row := fun row hrow =>
    (hdistance row (List.mem_of_mem_filter (Multiset.mem_coe.mp hrow))).symm
  rw [isNearest_map_iff hkey]
  simp only [LogicalOperator.Produces, hchild, hbindings]
  constructor
  · rintro ⟨-, ⟨hits, hhits, rfl⟩, rfl⟩
    exact ⟨hits, hhits, map_emit hrefs hits⟩
  · rintro ⟨hits, hhits, rfl⟩
    exact ⟨_, ⟨hits, hhits, rfl⟩, (map_emit hrefs hits).symm⟩

end OrderedScan

theorem rowIdColumns_getD (filterColumnIds : List Nat) :
    (rowIdColumns filterColumnIds).1.getD (rowIdColumns filterColumnIds).2 0 =
      columnIdentifierRowId := by
  rw [rowIdColumns]
  cases h : filterColumnIds.findIdx? fun columnId => columnId = columnIdentifierRowId with
  | none => simp
  | some i =>
    obtain ⟨hi, heq, -⟩ := List.findIdx?_eq_some_iff_getElem.mp h
    simpa [hi] using heq

omit [LinearOrder D] [DecidableEq X] [Inhabited X] in
theorem LogicalGet.passing_of_isEmpty (values : Values X D) (get : LogicalGet X Q D)
    (hempty : get.tableFilters.isEmpty) : get.passing values = get.table.rows := by
  refine List.filter_eq_self.mpr fun row _ => ?_
  rw [LogicalGet.passes, List.isEmpty_iff.mp hempty]
  rfl

omit [DecidableEq X] in
/-- Scenario 1 emits the nearest rows. -/
theorem nonFilteredScan_produces_iff {get : LogicalGet X Q D} {bindData : ScanBindData X Q D}
    (globalVersion : Bool) (hempty : get.tableFilters.isEmpty) (out : List (List X)) :
    (nonFilteredScan globalVersion get bindData).Produces values out ↔
      ∃ hits : List (TableRow X),
        IsNearest (bindData.distance values) bindData.limit (get.passing values) hits ∧
        out = hits.map (emit values get.columnIds
          (nonFilteredScan globalVersion get bindData).columnBindings) := by
  cases globalVersion with
  | true => exact Iff.rfl
  | false =>
    rw [get.passing_of_isEmpty values hempty]
    exact Iff.rfl

omit [LinearOrder D] [DecidableEq X] [Inhabited X] in
/-- The row ids that reach the filtered index scan. -/
theorem rowId_mem_iff {get : LogicalGet X Q D} {rows : List (TableRow X)}
    (hrows : rows.Perm (get.passing values)) {row : TableRow X} (hrow : row ∈ get.table.rows) :
    row.rowId ∈ rows.map TableRow.rowId ↔ get.passes values row := by
  constructor
  · intro hmem
    obtain ⟨row', hrow', hid⟩ := List.mem_map.mp hmem
    have hpassing := List.mem_filter.mp (hrows.subset hrow')
    rw [← List.inj_on_of_nodup_map get.table.nodup hpassing.1 hrow hid]
    exact hpassing.2
  · intro hpasses
    exact List.mem_map_of_mem (hrows.mem_iff.mpr (List.mem_filter.mpr ⟨hrow, hpasses⟩))

omit [LinearOrder D] [DecidableEq X] in
/-- The row ids that the filtered index scan reads from its child. -/
theorem map_toRowId_emit (get : LogicalGet X Q D) (rows : List (TableRow X)) :
    (rows.map (emit values (rowIdColumns (get.tableFilters.map Prod.fst)).1
        [⟨get.tableIndex, (rowIdColumns (get.tableFilters.map Prod.fst)).2⟩])).map (fun out =>
      values.toRowId (Term.eval values.interp (lookup
        [⟨get.tableIndex, (rowIdColumns (get.tableFilters.map Prod.fst)).2⟩] out)
        (.var ⟨get.tableIndex, (rowIdColumns (get.tableFilters.map Prod.fst)).2⟩))) =
    rows.map TableRow.rowId := by
  rw [List.map_map]
  refine List.map_congr_left fun row _ => ?_
  rw [Function.comp_apply, Term.eval, lookup_emit row (List.mem_singleton_self _),
    rowIdColumns_getD, Values.column, if_pos rfl, values.toRowId_rowId]

omit [LinearOrder D] [DecidableEq X] [Inhabited X] in
theorem filter_rowId_mem {get : LogicalGet X Q D} {rows : List (TableRow X)}
    (hrows : rows.Perm (get.passing values)) :
    get.table.rows.filter (fun row => row.rowId ∈ rows.map TableRow.rowId) =
      get.passing values := by
  refine List.filter_congr fun row hrow => ?_
  exact Bool.eq_iff_iff.mpr (decide_eq_true_iff.trans (rowId_mem_iff hrows hrow))

omit [DecidableEq X] in
/-- Scenario 2 emits the nearest of the rows that pass. -/
theorem filteredScan_produces_iff {get : LogicalGet X Q D} {bindData : ScanBindData X Q D}
    (hfunction : get.function = .seqScan) (out : List (List X)) :
    (filteredScan get bindData).Produces values out ↔
      ∃ hits : List (TableRow X),
        IsNearest (bindData.distance values) bindData.limit (get.passing values) hits ∧
        out = hits.map (emit values get.columnIds
          (generateColumnBindings get.tableIndex get.columnIds.length)) := by
  simp only [filteredScan, LogicalOperator.Produces, hfunction]
  constructor
  · rintro ⟨-, hits, ⟨rows, hrows, rfl⟩, hnearest, rfl⟩
    refine ⟨hits, ?_, rfl⟩
    have hfilter : get.table.rows.filter (fun row => row.rowId ∈ rows.map TableRow.rowId) =
        get.passing values := filter_rowId_mem hrows
    rw [← hfilter, ← map_toRowId_emit get rows]
    exact hnearest
  · rintro ⟨hits, hnearest, rfl⟩
    refine ⟨_, hits, ⟨get.passing values, List.Perm.refl _, rfl⟩, ?_, rfl⟩
    rw [← filter_rowId_mem (List.Perm.refl _), ← map_toRowId_emit] at hnearest
    exact hnearest

/-! ## When the results are preserved -/

/-- The functions that the index is matched by compute its distance, in either order of arguments, for
the values of its key in the given rows. -/
def TableIndex.MatchesMetric (values : Values X D) (rows : List (TableRow X))
    (index : TableIndex X Q D) : Prop :=
  ∀ name ∈ index.distanceFunctions, ∀ value queryEmbedding,
    index.queryEmbedding value = some queryEmbedding → ∀ row ∈ rows,
      let x := index.key.unboundExpression.eval values.interp fun ref =>
        values.column row (index.key.denoted ref)
      values.key (values.apply name [value, x]) = index.distance queryEmbedding x ∧
        values.key (values.apply name [x, value]) = index.distance queryEmbedding x

namespace OrderedScan

variable {q : OrderedScan X Q D}

/-- The key of an index that is found is bound to the columns that it denotes. -/
def BindsOrderedColumns (q : OrderedScan X Q D) : Prop :=
  ∀ ref, q.order.expression = .var ref →
    ∀ bindData ∈ findIndex q.limit q.get (q.expressions.getD ref.columnIndex default),
      bindData.index.key.BindsDenotedColumns q.get.tableIndex q.get.columnIds

/-- The index search is exact: an index that is found orders the rows as the plan does. -/
def ExactSearch (values : Values X D) (q : OrderedScan X Q D) : Prop :=
  ∀ ref, q.order.expression = .var ref →
    ∀ bindData ∈ findIndex q.limit q.get (q.expressions.getD ref.columnIndex default),
      ∀ row ∈ q.get.table.rows, bindData.distance values row = q.rowKey values row

omit [LinearOrder D] [DecidableEq X] in
/-- The key is the distance that the projection computes. -/
theorem rowKey_eq (hbound : q.plan.Bound) {ref : ColumnBinding}
    (hexpr : q.order.expression = .var ref) (row : TableRow X) :
    q.rowKey values row =
      values.key (q.get.value values (q.expressions.getD ref.columnIndex default) row) := by
  have href := hbound.2 q.order (List.mem_singleton_self _) ref (by simp [hexpr, Term.vars])
  rw [rowKey, outputKey, OrderByNode.key, hexpr, Term.eval, project, lookup_projection _ href]

omit [LinearOrder D] in
/-- An index that is found orders a row as the plan does if the distance functions compute the
distance of the index for the key of the row. -/
theorem distance_eq_rowKey (hbound : q.plan.Bound) {ref : ColumnBinding}
    (hexpr : q.order.expression = .var ref) {bindData : ScanBindData X Q D}
    (hfind : findIndex q.limit q.get (q.expressions.getD ref.columnIndex default) = some bindData)
    (hbinds : bindData.index.key.BindsDenotedColumns q.get.tableIndex q.get.columnIds)
    (row : TableRow X)
    (hmetric : ∀ name ∈ bindData.index.distanceFunctions, ∀ value,
      bindData.index.queryEmbedding value = some bindData.queryEmbedding → ∀ x,
      x = bindData.index.key.unboundExpression.eval values.interp (fun ref =>
        values.column row (bindData.index.key.denoted ref)) →
      values.key (values.apply name [value, x]) =
          bindData.index.distance bindData.queryEmbedding x ∧
        values.key (values.apply name [x, value]) =
          bindData.index.distance bindData.queryEmbedding x) :
    bindData.distance values row = q.rowKey values row := by
  have hmatch := matches_of_findIndex hfind
  obtain ⟨name, hname, value, args, indexExpr, hquery, hbind, hprojection⟩ := hmatch.expression
  have heval := hbinds.eval_eq indexExpr hbind X values.interp (values.column row)
  have hsym := hmetric name hname value hquery _ rfl
  rw [rowKey_eq hbound hexpr, ScanBindData.distance, LogicalGet.value]
  rcases hprojection with hprojection | hprojection
  · rw [hprojection, Term.eval, Term.evalList, Term.evalList, Term.evalList, heval]
    exact hsym.1.symm
  · rw [hprojection, Term.eval, Term.evalList, Term.evalList, Term.evalList, heval]
    exact hsym.2.symm

omit [LinearOrder D] in
/-- Exactness comes down to the distance functions computing the distance of the index, and to the
index expression being bound to the columns that it denotes. -/
theorem exactSearch_of_bindsDenotedColumns (hbound : q.plan.Bound)
    (hmetric : ∀ index ∈ q.get.table.indexes, index.MatchesMetric values q.get.table.rows)
    (hbinds : q.BindsOrderedColumns) : q.ExactSearch values := by
  intro ref hexpr bindData hfind row hrow
  refine distance_eq_rowKey hbound hexpr hfind (hbinds ref hexpr bindData hfind) row ?_
  rintro name hname value hquery x rfl
  exact hmetric _ (matches_of_findIndex hfind).index name hname value _ hquery row hrow

omit [DecidableEq X] [Inhabited X] [LinearOrder D] in
theorem plan_injective : Function.Injective (plan (X := X) (Q := Q) (D := D)) := by
  rintro ⟨limit, offset, order, tableIndex, expressions, get⟩
    ⟨limit', offset', order', tableIndex', expressions', get'⟩ h
  simpa [plan] using h

/-- The rewritten plan produces the nearest rows, from the first one on. -/
theorem produces_rewritten_iff {globalVersion : Bool} {plan' : LogicalOperator X Q D}
    (hbound : q.plan.Bound) (hexact : q.ExactSearch values)
    (h : tryOptimize globalVersion q.plan = some plan') (out : List (List X)) :
    plan'.Produces values out ↔ IsNearest (q.outputKey values) q.limit
      ((q.get.passing values : Multiset (TableRow X)).map (q.project values)) out := by
  obtain ⟨q', hq, -, hfunction, ref, bindData, hexpr, hfind, rfl⟩ := exists_of_tryOptimize h
  obtain rfl := plan_injective hq
  have hlimit := (matches_of_findIndex hfind).limit
  have hdistance := hexact ref hexpr bindData hfind
  have hrefs : ∀ expression ∈ q.expressions, ∀ ref ∈ expression.vars,
      ref ∈ generateColumnBindings q.get.tableIndex q.get.columnIds.length :=
    fun expression hexpression ref href =>
      LogicalGet.columnBindings_subset hbound.1.1 (hbound.1.2 expression hexpression ref href)
  split
  · rename_i hempty
    refine produces_projection_iff rfl ?_ (fun out => ?_) hdistance out
    · cases globalVersion with
      | true => exact hbound.1.2
      | false => exact hrefs
    · rw [← hlimit]
      exact nonFilteredScan_produces_iff globalVersion hempty out
  · refine produces_projection_iff rfl hrefs (fun out => ?_) hdistance out
    rw [← hlimit]
    exact filteredScan_produces_iff hfunction out

/-- Where the index that is found is bound to the columns of its key, the rewritten plan has the
results of the plan exactly when the slice that the plan asks for is the nearest rows whatever the
ties: the limit is zero, or the offset is zero and rows without a distance stay out of it, or there
is nothing to be seen or to be told apart. -/
theorem tryOptimize_preserves_iff {globalVersion : Bool} {plan' : LogicalOperator X Q D}
    (hbound : q.plan.Bound)
    (hmetric : ∀ index ∈ q.get.table.indexes, index.MatchesMetric values q.get.table.rows)
    (h : tryOptimize globalVersion q.plan = some plan') (hbinds : q.BindsOrderedColumns) :
    (∀ out, plan'.Produces values out ↔ q.plan.Produces values out) ↔
      SliceIsNearest q.order.nullOrder q.limit q.offset
        ((q.get.passing values : Multiset (TableRow X)).filter fun row =>
          q.rowKey values row ≠ ⊤).card
        ((q.get.passing values : Multiset (TableRow X)).filter fun row =>
          ¬ q.rowKey values row ≠ ⊤).card
        (ties (q.rowKey values) (q.get.passing values : Multiset (TableRow X))) := by
  have hexact := exactSearch_of_bindsDenotedColumns hbound hmetric hbinds
  obtain ⟨q', hq, htype, hfunction, -⟩ := exists_of_tryOptimize h
  obtain rfl := plan_injective hq
  have hkey : ∀ row ∈ (q.get.passing values : Multiset (TableRow X)),
      q.outputKey values (q.project values row) = q.rowKey values row := fun _ _ => rfl
  rw [← isNearest_map_iff_isTopN_map _ _ _ hkey]
  refine forall_congr' fun out => ?_
  rw [produces_rewritten_iff hbound hexact h, produces_plan_iff hbound htype hfunction]

end OrderedScan

end Rows

/-! ## Three rows -/

section ThreeRows

/-- Numbers and NULL; the one function is the distance of two numbers. -/
def numbers : Values (Option Nat) Nat where
  apply _ args := match args with
    | [some x, some y] => some ((x - y) + (y - x))
    | _ => none
  key x := x
  rowId r := some r
  toRowId x := x.getD 0
  toRowId_rowId _ := rfl

/-- An index over the only column. -/
def numbersIndex : TableIndex (Option Nat) Nat Nat where
  isBoundPdxearch := true
  distanceFunctions := ["array_distance"]
  matchesType _ := true
  key :=
    { columns := [.standard], columnIds := [0], unboundExpression := .var ⟨0, 0⟩,
      standard := by decide, inRange := by simp [Term.vars] }
  queryEmbedding x := x
  distance query x := numbers.apply "array_distance" [some query, x]

/-- The embeddings `1`, NULL and `2`. -/
def threeRows : Table (Option Nat) Nat Nat where
  isDuckTable := true
  indexes := [numbersIndex]
  rows := [⟨0, fun _ => some 1⟩, ⟨1, fun _ => none⟩, ⟨2, fun _ => some 2⟩]
  nodup := by decide

/-- `SELECT vec FROM threeRows ORDER BY array_distance(vec, 0) LIMIT limit OFFSET offset` -/
def threeRowsScan (limit offset : Nat) : OrderedScan (Option Nat) Nat Nat where
  limit := limit
  offset := offset
  order := { type := .ascending, nullOrder := .nullsLast, expression := .var ⟨1, 1⟩ }
  tableIndex := 1
  expressions := [.var ⟨0, 0⟩,
    .app (.function "array_distance") [.var ⟨0, 0⟩, .app (.constant (some 0)) []]]
  get :=
    { function := .seqScan, table := threeRows, tableIndex := 0, columnIds := [0],
      projectionIds := [], tableFilters := [], hasDynamicFilters := false }

theorem threeRowsScan_bound (limit offset : Nat) : (threeRowsScan limit offset).plan.Bound := by
  simp [OrderedScan.plan, threeRowsScan, LogicalOperator.Bound, LogicalOperator.columnBindings,
    LogicalGet.columnBindings, generateColumnBindings, Term.vars, Term.varsList]

/-- The one distance function computes the distance of an index of numbers. -/
theorem matchesMetric_numbers {index : TableIndex (Option Nat) Nat Nat}
    (hquery : index.queryEmbedding = id)
    (hdistance : ∀ query x, index.distance query x = numbers.apply "array_distance" [some query, x])
    (rows : List (TableRow (Option Nat))) : index.MatchesMetric numbers rows := by
  intro name _ value query hvalue row _ x
  obtain rfl : value = some query := by
    rw [hquery] at hvalue
    exact hvalue
  rw [hdistance]
  refine ⟨rfl, ?_⟩
  cases x with
  | none => rfl
  | some x => exact congrArg some (Nat.add_comm _ _)

theorem threeRowsScan_matchesMetric (limit offset : Nat) :
    ∀ index ∈ (threeRowsScan limit offset).get.table.indexes,
      index.MatchesMetric numbers (threeRowsScan limit offset).get.table.rows := by
  intro index hindex
  obtain rfl := List.mem_singleton.mp hindex
  exact matchesMetric_numbers rfl (fun _ _ => rfl) _

theorem threeRowsScan_bindsOrderedColumns (limit offset : Nat) :
    (threeRowsScan limit offset).BindsOrderedColumns := by
  intro ref _ bindData hfind
  obtain hindex : bindData.index = numbersIndex :=
    List.mem_singleton.mp (matches_of_findIndex hfind).index
  rw [hindex]
  refine IndexKey.bindsDenotedColumns_of_same fun c hc => ?_
  obtain rfl : c = 0 := by
    simpa [numbersIndex, IndexKey.keyColumns, Term.vars, IndexKey.denoted, eq_comm] using hc
  rfl

theorem threeRowsScan_exactSearch (limit offset : Nat) :
    (threeRowsScan limit offset).ExactSearch numbers :=
  OrderedScan.exactSearch_of_bindsDenotedColumns (threeRowsScan_bound limit offset)
    (threeRowsScan_matchesMetric limit offset) (threeRowsScan_bindsOrderedColumns limit offset)

/-- What becomes of it. -/
def threeRowsRewritten (limit : Nat) : LogicalOperator (Option Nat) Nat Nat :=
  .projection 1 (threeRowsScan limit 0).expressions
    (.pdxearchIndexScan threeRows { index := numbersIndex, limit := limit, queryEmbedding := 0 } [0] 0)

theorem tryOptimize_threeRowsScan (limit offset : Nat) :
    tryOptimize false (threeRowsScan limit offset).plan = some (threeRowsRewritten limit) := by
  rfl

namespace OrderedScan

theorem tryOptimize_preserves_iff_threeRows :
    tryOptimize false (threeRowsScan 2 0).plan = some (threeRowsRewritten 2) ∧
      ∀ out, (threeRowsRewritten 2).Produces numbers out ↔
        (threeRowsScan 2 0).plan.Produces numbers out :=
  ⟨tryOptimize_threeRowsScan 2 0,
    (tryOptimize_preserves_iff (threeRowsScan_bound 2 0) (threeRowsScan_matchesMetric 2 0)
      (tryOptimize_threeRowsScan 2 0) (threeRowsScan_bindsOrderedColumns 2 0)).mpr
      (Or.inr (Or.inl ⟨rfl, Or.inl (by decide)⟩))⟩

/-- A table of a generated column `g` and two embeddings `a` and `b`, with an index over `b`. The rows
are in one order by `a` and in the other by `b`. -/
def generatedColumnRows : Table (Option Nat) Nat Nat where
  isDuckTable := true
  indexes := [{ numbersIndex with
    key :=
      { columns := [.generated, .standard, .standard], columnIds := [2],
        unboundExpression := .var ⟨0, 0⟩, standard := IndexKey.indexOnB.standard,
        inRange := IndexKey.indexOnB.inRange } }]
  rows := [⟨0, fun c => if c = 1 then some 1 else some 2⟩,
    ⟨1, fun c => if c = 1 then some 2 else some 1⟩]
  nodup := by decide

/-- `SELECT a FROM generatedColumnRows ORDER BY array_distance(a, 0) LIMIT 1` -/
def generatedColumnScan : OrderedScan (Option Nat) Nat Nat :=
  { threeRowsScan 1 0 with
    get := { (threeRowsScan 1 0).get with table := generatedColumnRows, columnIds := [1] } }

/-- What becomes of it: an index scan by the distance of `b`. -/
def generatedColumnRewritten : LogicalOperator (Option Nat) Nat Nat :=
  .projection 1 generatedColumnScan.expressions
    (.pdxearchIndexScan generatedColumnRows
      { index := generatedColumnRows.indexes.headD numbersIndex, limit := 1, queryEmbedding := 0 }
      [1] 0)

/-- It produces the row with the least `b`. -/
theorem generatedColumnRewritten_produces :
    generatedColumnRewritten.Produces numbers [[some 2, some 2]] := by
  refine ⟨[[some 2]], ⟨[generatedColumnRows.rows.getLast (by decide)], ?_, rfl⟩, rfl⟩
  refine ⟨generatedColumnRows.rows.reverse, ?_, by decide, rfl⟩
  exact Multiset.coe_eq_coe.mpr (List.reverse_perm _)

/-- It is not the row with the least `a`. -/
theorem generatedColumnScan_not_produces :
    ¬ generatedColumnScan.plan.Produces numbers [[some 2, some 2]] := by
  have hbound : generatedColumnScan.plan.Bound := by
    simp [plan, generatedColumnScan, threeRowsScan, LogicalOperator.Bound,
      LogicalOperator.columnBindings, LogicalGet.columnBindings, generateColumnBindings, Term.vars,
      Term.varsList]
  intro h
  obtain ⟨sorted, hsorted, hpairwise, hout⟩ := (produces_plan_iff hbound rfl rfl _).mp h
  have hfirst : [some 1, some 1] ∈ sorted := by
    have hmem : [some 1, some 1] ∈ (sorted : Multiset (List (Option Nat))) := by
      rw [hsorted]
      exact List.mem_cons_self
    exact Multiset.mem_coe.mp hmem
  cases sorted with
  | nil => cases hfirst
  | cons row rest =>
    obtain rfl : row = [some 2, some 2] := (List.cons.inj hout).1.symm
    rcases List.mem_cons.mp hfirst with heq | hrest
    · exact absurd heq (by decide)
    · have hle : generatedColumnScan.outputKey numbers [some 2, some 2] ≤
          generatedColumnScan.outputKey numbers [some 1, some 1] :=
        (List.pairwise_cons.mp hpairwise).1 _ hrest
      exact absurd hle (by decide)

/-- With `OFFSET 1` the nearest row is produced in place of the second, and with a generated column in
front of the index's the row that is nearest by another column. -/
theorem tryOptimize_changes_results :
    (tryOptimize false (threeRowsScan 1 1).plan = some (threeRowsRewritten 1) ∧
      (threeRowsScan 1 1).plan.Bound ∧ (threeRowsScan 1 1).ExactSearch numbers ∧
      ¬ ∀ out, (threeRowsRewritten 1).Produces numbers out ↔
        (threeRowsScan 1 1).plan.Produces numbers out) ∧
    tryOptimize false generatedColumnScan.plan = some generatedColumnRewritten ∧
      ¬ ∀ out, generatedColumnRewritten.Produces numbers out ↔
        generatedColumnScan.plan.Produces numbers out := by
  have hbound := threeRowsScan_bound 1 1
  have hexact := threeRowsScan_exactSearch 1 1
  have hrewrite := tryOptimize_threeRowsScan 1 1
  refine ⟨⟨hrewrite, hbound, hexact, fun h => ?_⟩, rfl, fun h =>
    generatedColumnScan_not_produces ((h _).mp generatedColumnRewritten_produces)⟩
  have hkey : ∀ row ∈ ((threeRowsScan 1 1).get.passing numbers : Multiset (TableRow (Option Nat))),
      (threeRowsScan 1 1).outputKey numbers ((threeRowsScan 1 1).project numbers row) =
        (threeRowsScan 1 1).rowKey numbers row := fun _ _ => rfl
  have hslice := (isNearest_map_iff_isTopN_map .nullsLast 1 1 hkey).mp fun out =>
    (produces_rewritten_iff hbound hexact hrewrite out).symm.trans
      ((h out).trans (produces_plan_iff hbound rfl rfl out))
  rcases hslice with hlimit | ⟨hoffset, -⟩ | ⟨hnone, -⟩ | hties
  · exact absurd hlimit (by decide)
  · exact absurd hoffset (by decide)
  · exact absurd hnone (by decide)
  · exact absurd hties (by decide)

end OrderedScan

end ThreeRows

end PDXearch
