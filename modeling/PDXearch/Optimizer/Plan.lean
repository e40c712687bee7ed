import PDXearch.Lib.TopN
import PDXearch.Optimizer.IndexExpression

/-!
# Logical plans

The operators that the scan optimizer looks at and puts in their place, with their meaning: the
lists of rows that a plan may produce. A table scan produces its rows in any order, and ties in an
ORDER BY or in a search are resolved in any way. The index search is taken to be exact: it produces
the nearest rows that have an embedding.
-/

namespace PDXearch

open Lib

/-- `COLUMN_IDENTIFIER_ROW_ID` -/
def columnIdentifierRowId : Nat := 2 ^ 64 - 1

/-- A constant (`VALUE_CONSTANT`), or a function by its name (`BOUND_FUNCTION`). -/
inductive Symbol (X : Type)
  | constant (value : X)
  | function (name : String)
  deriving DecidableEq

/-- What values mean: the functions, the comparison of ORDER BY (`⊤` is NULL), and row ids. -/
structure Values (X D : Type) where
  apply : String → List X → X
  key : X → WithTop D
  rowId : Nat → X
  toRowId : X → Nat
  toRowId_rowId : ∀ r, toRowId (rowId r) = r

def Values.interp {X D : Type} (values : Values X D) : Symbol X → List X → X
  | .constant value, _ => value
  | .function name, args => values.apply name args

/-- A row of a table; columns go by their logical numbers. -/
structure TableRow (X : Type) where
  rowId : Nat
  cell : Nat → X

/-- The value of a column or of the row id column. -/
def Values.column {X D : Type} (values : Values X D) (row : TableRow X) (columnId : Nat) : X :=
  if columnId = columnIdentifierRowId then values.rowId row.rowId else row.cell columnId

/-- What the optimizer asks of an index: the names and types that the function matcher accepts, the
key, the query embedding that a constant holds (a BLOB of another dimension holds none), and the
distance of an embedding, which is `⊤` where there is none. -/
structure TableIndex (X Q D : Type) where
  isBoundPdxearch : Bool
  distanceFunctions : List String
  matchesType : Expression (Symbol X) → Bool
  key : IndexKey (Symbol X)
  queryEmbedding : X → Option Q
  distance : Q → X → WithTop D

/-- A table with its contents. -/
structure Table (X Q D : Type) where
  isDuckTable : Bool
  indexes : List (TableIndex X Q D)
  rows : List (TableRow X)
  nodup : (rows.map TableRow.rowId).Nodup

/-- `PDXearchIndexScanBindData` -/
structure ScanBindData (X Q D : Type) where
  index : TableIndex X Q D
  limit : Nat
  queryEmbedding : Q

/-- The function of a `LogicalGet`: `seq_scan`, in the global version the index scan function with its
bind data, or any other. -/
inductive GetFunction (X Q D : Type)
  | seqScan
  | pdxearchIndexScan (bindData : ScanBindData X Q D)
  | other (name : String)

/-- `LogicalGet` -/
structure LogicalGet (X Q D : Type) where
  function : GetFunction X Q D
  table : Table X Q D
  tableIndex : Nat
  columnIds : List Nat
  projectionIds : List Nat
  tableFilters : List (Nat × (X → Bool))
  hasDynamicFilters : Bool

inductive OrderType
  | ascending
  | descending
  deriving DecidableEq

/-- `BoundOrderByNode` -/
structure OrderByNode (X : Type) where
  type : OrderType
  nullOrder : NullOrder
  expression : Expression (Symbol X)

/-- `LogicalOperator`; `other` is any operator that the optimizer does not look into. -/
inductive LogicalOperator (X Q D : Type)
  | topN (limit offset : Nat) (orders : List (OrderByNode X)) (child : LogicalOperator X Q D)
  | projection (tableIndex : Nat) (expressions : List (Expression (Symbol X)))
      (child : LogicalOperator X Q D)
  | get (scan : LogicalGet X Q D)
  | pdxearchIndexScan (table : Table X Q D) (bindData : ScanBindData X Q D) (columnIds : List Nat)
      (tableIndex : Nat)
  | pdxearchIndexFilteredScan (table : Table X Q D) (bindData : ScanBindData X Q D)
      (columnIds : List Nat) (tableIndex : Nat) (rowIdColumn : Expression (Symbol X))
      (child : LogicalOperator X Q D)
  | other

/-! ## Column bindings -/

/-- `GenerateColumnBindings` -/
def generateColumnBindings (tableIndex columnCount : Nat) : List ColumnBinding :=
  (List.range columnCount).map fun i => ⟨tableIndex, i⟩

variable {X Q D : Type}

/-- `LogicalGet::GetColumnBindings` -/
def LogicalGet.columnBindings (get : LogicalGet X Q D) : List ColumnBinding :=
  if get.projectionIds.isEmpty then generateColumnBindings get.tableIndex get.columnIds.length
  else get.projectionIds.map fun i => ⟨get.tableIndex, i⟩

/-- `GetColumnBindings` -/
def LogicalOperator.columnBindings : LogicalOperator X Q D → List ColumnBinding
  | .topN _ _ _ child => child.columnBindings
  | .projection tableIndex expressions _ => generateColumnBindings tableIndex expressions.length
  | .get scan => scan.columnBindings
  | .pdxearchIndexScan _ _ columnIds tableIndex =>
    generateColumnBindings tableIndex columnIds.length
  | .pdxearchIndexFilteredScan _ _ columnIds tableIndex _ _ =>
    generateColumnBindings tableIndex columnIds.length
  | .other => []

/-! ## The meaning of a plan -/

section Meaning

variable [Inhabited X] [LinearOrder D] (values : Values X D)

/-- What a column reference stands for in a row with the given bindings. -/
def lookup (bindings : List ColumnBinding) (row : List X) (ref : ColumnBinding) : X :=
  row.getD (bindings.idxOf ref) default

/-- The columns of a table row that a scan puts out. -/
def emit (columnIds : List Nat) (bindings : List ColumnBinding) (row : TableRow X) : List X :=
  bindings.map fun binding => values.column row (columnIds.getD binding.columnIndex 0)

/-- The row passes the filters that were pushed down. -/
def LogicalGet.passes (get : LogicalGet X Q D) (row : TableRow X) : Bool :=
  get.tableFilters.all fun (columnId, filter) => filter (values.column row columnId)

/-- The distance of a row's key to the query. -/
def ScanBindData.distance (bindData : ScanBindData X Q D) (row : TableRow X) : WithTop D :=
  bindData.index.distance bindData.queryEmbedding
    (bindData.index.key.unboundExpression.eval values.interp fun ref =>
      values.column row (bindData.index.key.denoted ref))

/-- The key of an order in a row. -/
def OrderByNode.key (order : OrderByNode X) (bindings : List ColumnBinding) (row : List X) :
    WithTop D :=
  values.key (order.expression.eval values.interp (lookup bindings row))

/-- `a` may stand before `b` by one order, -/
def OrderByNode.before (order : OrderByNode X) (bindings : List ColumnBinding) (a b : List X) :
    Prop :=
  match order.type with
  | .ascending => order.nullOrder.Before (order.key values bindings) a b
  | .descending =>
    order.nullOrder.Before (fun row => (order.key values bindings row).map OrderDual.toDual) a b

/-- and by a list of them. -/
def ordersBefore (bindings : List ColumnBinding) : List (OrderByNode X) → List X → List X → Prop
  | [], _, _ => True
  | order :: orders, a, b => order.before values bindings a b ∧
    (order.before values bindings b a → ordersBefore bindings orders a b)

/-- The rows that a plan may produce. -/
def LogicalOperator.Produces : LogicalOperator X Q D → List (List X) → Prop
  | .topN limit offset orders child, out => ∃ input sorted : List (List X),
    child.Produces input ∧ sorted.Perm input ∧
    sorted.Pairwise (ordersBefore values child.columnBindings orders) ∧
    out = (sorted.drop offset).take limit
  | .projection _ expressions child, out => ∃ input : List (List X), child.Produces input ∧
    out = input.map fun row => expressions.map fun expression =>
      expression.eval values.interp (lookup child.columnBindings row)
  | .get scan, out => ∃ rows : List (TableRow X),
    (match scan.function with
    | .seqScan => rows.Perm (scan.table.rows.filter (scan.passes values))
    | .pdxearchIndexScan bindData => IsNearest (bindData.distance values) bindData.limit
      (scan.table.rows.filter (scan.passes values)) rows
    | .other _ => False) ∧
    out = rows.map (emit values scan.columnIds scan.columnBindings)
  | .pdxearchIndexScan table bindData columnIds tableIndex, out => ∃ hits : List (TableRow X),
    IsNearest (bindData.distance values) bindData.limit table.rows hits ∧
    out = hits.map (emit values columnIds (generateColumnBindings tableIndex columnIds.length))
  | .pdxearchIndexFilteredScan table bindData columnIds tableIndex rowIdColumn child, out =>
    ∃ (input : List (List X)) (hits : List (TableRow X)), child.Produces input ∧
    IsNearest (bindData.distance values) bindData.limit
      (table.rows.filter fun row => row.rowId ∈ input.map fun out =>
        values.toRowId (rowIdColumn.eval values.interp (lookup child.columnBindings out))) hits ∧
    out = hits.map (emit values columnIds (generateColumnBindings tableIndex columnIds.length))
  | .other, _ => False

end Meaning

/-! ## Reading the output of a scan -/

section Lookup

/-- What the binder promises of a plan: every reference of an operator is a column of its child, and a
scan projects columns that it reads. -/
def LogicalOperator.Bound : LogicalOperator X Q D → Prop
  | .topN _ _ orders child => child.Bound ∧
    ∀ order ∈ orders, ∀ ref ∈ order.expression.vars, ref ∈ child.columnBindings
  | .projection _ expressions child => child.Bound ∧
    ∀ expression ∈ expressions, ∀ ref ∈ expression.vars, ref ∈ child.columnBindings
  | .get scan => ∀ i ∈ scan.projectionIds, i < scan.columnIds.length
  | .pdxearchIndexFilteredScan _ _ _ _ rowIdColumn child => child.Bound ∧
    ∀ ref ∈ rowIdColumn.vars, ref ∈ child.columnBindings
  | .pdxearchIndexScan _ _ _ _ => True
  | .other => True

theorem mem_generateColumnBindings {tableIndex columnCount : Nat} {ref : ColumnBinding} :
    ref ∈ generateColumnBindings tableIndex columnCount ↔
      ref.tableIndex = tableIndex ∧ ref.columnIndex < columnCount := by
  rw [generateColumnBindings, List.mem_map]
  constructor
  · rintro ⟨i, hi, rfl⟩
    exact ⟨rfl, List.mem_range.mp hi⟩
  · rintro ⟨rfl, hi⟩
    exact ⟨ref.columnIndex, List.mem_range.mpr hi, rfl⟩

/-- An index scan puts out all columns that the table scan could put out. -/
theorem LogicalGet.columnBindings_subset {get : LogicalGet X Q D}
    (hprojection : ∀ i ∈ get.projectionIds, i < get.columnIds.length) {ref : ColumnBinding}
    (href : ref ∈ get.columnBindings) :
    ref ∈ generateColumnBindings get.tableIndex get.columnIds.length := by
  rw [LogicalGet.columnBindings] at href
  split at href
  · exact href
  · obtain ⟨i, hi, rfl⟩ := List.mem_map.mp href
    exact mem_generateColumnBindings.mpr ⟨rfl, hprojection i hi⟩

variable [Inhabited X]

theorem lookup_map {bindings : List ColumnBinding} {ref : ColumnBinding} (f : ColumnBinding → X)
    (h : ref ∈ bindings) : lookup bindings (bindings.map f) ref = f ref := by
  have hlt : bindings.idxOf ref < bindings.length := List.idxOf_lt_length_of_mem h
  rw [lookup, List.getD_eq_getElem?_getD, List.getElem?_map, List.getElem?_eq_getElem hlt,
    List.getElem_idxOf hlt]
  rfl

theorem lookup_emit {values : Values X D} {columnIds : List Nat} {bindings : List ColumnBinding}
    {ref : ColumnBinding} (row : TableRow X) (h : ref ∈ bindings) :
    lookup bindings (emit values columnIds bindings row) ref =
      values.column row (columnIds.getD ref.columnIndex 0) :=
  lookup_map (fun ref => values.column row (columnIds.getD ref.columnIndex 0)) h

/-- The columns of a projection are its expressions in order. -/
theorem lookup_projection {F : Type} {tableIndex : Nat} {expressions : List (Expression F)}
    {ref : ColumnBinding} (f : Expression F → X)
    (h : ref ∈ generateColumnBindings tableIndex expressions.length) :
    lookup (generateColumnBindings tableIndex expressions.length) (expressions.map f) ref =
      f (expressions.getD ref.columnIndex default) := by
  have hmap : expressions.map f = (generateColumnBindings tableIndex expressions.length).map
      fun ref => f (expressions.getD ref.columnIndex default) := by
    refine List.ext_getElem (by simp [generateColumnBindings]) fun i hi _ => ?_
    have hi : i < expressions.length := by simpa using hi
    simp [generateColumnBindings, hi]
  rw [hmap, lookup_map _ h]

end Lookup

end PDXearch
