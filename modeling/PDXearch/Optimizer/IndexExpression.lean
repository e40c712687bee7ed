import PDXearch.Lib.Term

/-!
# Binding the index expression to a scan

`TryBindIndexExpression` rewrites the expression that an index was created over so that its column
references point into a table scan. A column goes by three numbers on the way: its position in the
index's column list, the storage id that was recorded when the index was created, and the primary
index under which the scan lists it, the logical column number. The code compares the last two, and
they agree only in front of the first generated column.
-/

namespace PDXearch

open Lib

inductive ColumnCategory
  | standard
  | generated
  deriving DecidableEq

/-- `ColumnList::LogicalToPhysical`: generated columns are skipped. -/
def logicalToPhysical (columns : List ColumnCategory) (logical : Nat) : Nat :=
  ((columns.take logical).filter fun category => category = .standard).length

/-- `ColumnBinding` -/
@[ext] structure ColumnBinding where
  tableIndex : Nat
  columnIndex : Nat
  deriving DecidableEq, Inhabited

/-- `Expression`: the variables are the bound column references. -/
abbrev Expression (F : Type) : Type := Term F ColumnBinding

/-- An index with what it was created from: the table's columns, the logical columns of
`CreateIndexInfo::column_ids`, and the key, whose references are positions in that list. -/
structure IndexKey (F : Type) where
  columns : List ColumnCategory
  columnIds : List Nat
  unboundExpression : Expression F
  standard : ∀ c ∈ columnIds, columns[c]? = some .standard
  inRange : ∀ ref ∈ unboundExpression.vars, ref.columnIndex < columnIds.length

namespace IndexKey

variable {F : Type} (index : IndexKey F)

/-- The constructor of `PhysicalCreatePDXearchIndex`; the index's `GetColumnIds()`. -/
def storageIds : List Nat := index.columnIds.map (logicalToPhysical index.columns)

/-- The column that a reference of the key denoted when the index was created. -/
def denoted (ref : ColumnBinding) : Nat := index.columnIds.getD ref.columnIndex 0

end IndexKey

/-- `success` and `found`, which are passed by reference. -/
structure BindState where
  success : Bool
  found : Bool

section TryBind

variable {F : Type} (tableIdx : Nat) (indexColumns tableColumns : List Nat)

/-- The loop over the columns of the scan: where the column of a reference is found. -/
def scanPosition (ref : ColumnBinding) : Option Nat :=
  tableColumns.findIdx? fun column => column = indexColumns.getD ref.columnIndex 0

mutual

def tryBindIndexExpressionInternal : Expression F → BindState → Expression F × BindState
  | .var ref, s =>
    let s := { s with found := true }
    match scanPosition indexColumns tableColumns ref with
    | some i => (.var ⟨tableIdx, i⟩, s)
    | none => (.var ⟨tableIdx, ref.columnIndex⟩, { s with success := false })
  | .app f children, s =>
    let (children, s) := tryBindChildren children s
    (.app f children, s)

/-- `EnumerateChildren` -/
def tryBindChildren : List (Expression F) → BindState → List (Expression F) × BindState
  | [], s => ([], s)
  | child :: children, s =>
    let (child, s) := tryBindIndexExpressionInternal child s
    let (children, s) := tryBindChildren children s
    (child :: children, s)

end

end TryBind

/-- `TryBindIndexExpression`; a scan is given by its table index and its column ids. -/
def IndexKey.tryBindIndexExpression {F : Type} (index : IndexKey F) (tableIndex : Nat)
    (tableColumns : List Nat) : Option (Expression F) :=
  let (expr, s) := tryBindIndexExpressionInternal tableIndex index.storageIds tableColumns
    index.unboundExpression ⟨true, false⟩
  if s.success ∧ s.found then some expr else none

/-! ## What the recursion computes -/

section Spec

variable {F : Type} (tableIdx : Nat) (indexColumns tableColumns : List Nat)

/-- The reference after the recursion. -/
def rebind (ref : ColumnBinding) : ColumnBinding :=
  ⟨tableIdx, (scanPosition indexColumns tableColumns ref).getD ref.columnIndex⟩

mutual

theorem tryBindIndexExpressionInternal_eq : ∀ (expr : Expression F) (s : BindState),
    tryBindIndexExpressionInternal tableIdx indexColumns tableColumns expr s =
      (expr.map (rebind tableIdx indexColumns tableColumns),
        ⟨s.success && expr.vars.all fun ref => (scanPosition indexColumns tableColumns ref).isSome,
          s.found || !expr.vars.isEmpty⟩)
  | .var ref, s => by
    rw [tryBindIndexExpressionInternal, Term.map, Term.vars, rebind]
    cases h : scanPosition indexColumns tableColumns ref with
    | none => simp [h]
    | some i => simp [h]
  | .app f children, s => by
    rw [tryBindIndexExpressionInternal, tryBindChildren_eq children s, Term.map, Term.vars]

theorem tryBindChildren_eq : ∀ (children : List (Expression F)) (s : BindState),
    tryBindChildren tableIdx indexColumns tableColumns children s =
      (Term.mapList (rebind tableIdx indexColumns tableColumns) children,
        ⟨s.success && (Term.varsList children).all fun ref =>
            (scanPosition indexColumns tableColumns ref).isSome,
          s.found || !(Term.varsList children).isEmpty⟩)
  | [], s => by simp [tryBindChildren, Term.mapList, Term.varsList]
  | child :: children, s => by
    rw [tryBindChildren, tryBindIndexExpressionInternal_eq child s, Term.mapList, Term.varsList]
    simp only
    rw [tryBindChildren_eq children]
    have hempty : (child.vars ++ Term.varsList children).isEmpty =
        (child.vars.isEmpty && (Term.varsList children).isEmpty) := by
      cases child.vars <;> rfl
    simp only [List.all_append, hempty, Bool.not_and, Bool.and_assoc, Bool.or_assoc]

end

end Spec

namespace IndexKey

variable {F : Type} (index : IndexKey F) (tableIndex : Nat) (tableColumns : List Nat)

theorem tryBindIndexExpression_eq :
    index.tryBindIndexExpression tableIndex tableColumns =
      if (∀ ref ∈ index.unboundExpression.vars,
          (scanPosition index.storageIds tableColumns ref).isSome) ∧
          index.unboundExpression.vars ≠ [] then
        some (index.unboundExpression.map (rebind tableIndex index.storageIds tableColumns))
      else none := by
  rw [tryBindIndexExpression, tryBindIndexExpressionInternal_eq]
  simp

/-- The storage id that the loop looks for. -/
theorem storageIds_getD (ref : ColumnBinding) :
    index.storageIds.getD ref.columnIndex 0 =
      logicalToPhysical index.columns (index.denoted ref) := by
  rw [storageIds, denoted, List.getD_eq_getElem?_getD, List.getD_eq_getElem?_getD,
    List.getElem?_map]
  cases index.columnIds[ref.columnIndex]? with
  | none => rfl
  | some c => rfl

/-- What a found position says. -/
theorem getElem_scanPosition {ref : ColumnBinding} {i : Nat}
    (h : scanPosition index.storageIds tableColumns ref = some i) :
    tableColumns[i]? = some (logicalToPhysical index.columns (index.denoted ref)) := by
  obtain ⟨hi, heq, -⟩ := List.findIdx?_eq_some_iff_getElem.mp h
  rw [List.getElem?_eq_getElem hi, of_decide_eq_true heq, storageIds_getD]

theorem isSome_scanPosition_iff (ref : ColumnBinding) :
    (scanPosition index.storageIds tableColumns ref).isSome ↔
      logicalToPhysical index.columns (index.denoted ref) ∈ tableColumns := by
  rw [scanPosition, List.findIdx?_isSome, List.any_eq_true, storageIds_getD]
  simp

/-- The columns that the key references, by their logical numbers. -/
def keyColumns : List Nat := index.unboundExpression.vars.map index.denoted

/-- What binding the key to a scan is to achieve: a bound expression is the key with every reference
pointing to the scan position of the column that it denotes, so that it evaluates on a row of the
scan as the key does on the row of the table; and the key can be bound if it references a column and
the scan outputs all of its columns. -/
structure BindsDenotedColumns : Prop where
  denotes : ∀ expr ∈ index.tryBindIndexExpression tableIndex tableColumns,
    ∃ position : ColumnBinding → Nat,
      expr = index.unboundExpression.map (fun ref => ⟨tableIndex, position ref⟩) ∧
      ∀ ref ∈ index.unboundExpression.vars,
        tableColumns[position ref]? = some (index.denoted ref)
  eval_eq : ∀ expr ∈ index.tryBindIndexExpression tableIndex tableColumns,
    ∀ (X : Type) (interp : F → List X → X) (row : Nat → X),
      expr.eval interp (fun ref => row (tableColumns.getD ref.columnIndex 0)) =
        index.unboundExpression.eval interp fun ref => row (index.denoted ref)
  complete : index.keyColumns ≠ [] → (∀ c ∈ index.keyColumns, c ∈ tableColumns) →
    (index.tryBindIndexExpression tableIndex tableColumns).isSome

variable {index tableIndex tableColumns}

theorem tryBindIndexExpression_of_missing (tableIndex : Nat)
    (h : ∃ c ∈ index.keyColumns, logicalToPhysical index.columns c ∉ tableColumns) :
    index.tryBindIndexExpression tableIndex tableColumns = none := by
  rw [tryBindIndexExpression_eq, if_neg]
  rintro ⟨hsome, -⟩
  obtain ⟨c, hc, hnot⟩ := h
  obtain ⟨ref, href, rfl⟩ := List.mem_map.mp hc
  exact hnot ((index.isSome_scanPosition_iff tableColumns ref).mp (hsome ref href))

theorem tryBindIndexExpression_of_found (tableIndex : Nat)
    (h : ∀ c ∈ index.keyColumns, logicalToPhysical index.columns c ∈ tableColumns)
    (hne : index.keyColumns ≠ []) :
    index.tryBindIndexExpression tableIndex tableColumns =
      some (index.unboundExpression.map (rebind tableIndex index.storageIds tableColumns)) := by
  rw [tryBindIndexExpression_eq, if_pos]
  refine ⟨fun ref href => ?_, fun hnil => hne (by simp [keyColumns, hnil])⟩
  exact (index.isSome_scanPosition_iff tableColumns ref).mpr (h _ (List.mem_map_of_mem href))

/-- Where the two numbers agree the right column is bound. -/
theorem denotes_of_same (h : ∀ c ∈ index.keyColumns, logicalToPhysical index.columns c = c)
    {expr : Expression F} (hexpr : expr ∈ index.tryBindIndexExpression tableIndex tableColumns) :
    ∃ position : ColumnBinding → Nat,
      expr = index.unboundExpression.map (fun ref => ⟨tableIndex, position ref⟩) ∧
      ∀ ref ∈ index.unboundExpression.vars,
        tableColumns[position ref]? = some (index.denoted ref) := by
  rw [tryBindIndexExpression_eq] at hexpr
  split at hexpr
  · rename_i hsome
    obtain rfl := Option.some.inj hexpr
    refine ⟨fun ref => (scanPosition index.storageIds tableColumns ref).getD ref.columnIndex, rfl,
      fun ref href => ?_⟩
    obtain ⟨i, hi⟩ := Option.isSome_iff_exists.mp (hsome.1 ref href)
    simp only [hi, Option.getD_some]
    rw [index.getElem_scanPosition tableColumns hi, h _ (List.mem_map_of_mem href)]
  · cases hexpr

theorem bindsDenotedColumns_of_same
    (h : ∀ c ∈ index.keyColumns, logicalToPhysical index.columns c = c) :
    index.BindsDenotedColumns tableIndex tableColumns := by
  refine ⟨fun expr hexpr => denotes_of_same h hexpr, fun expr hexpr X interp row => ?_,
    fun hne hall => ?_⟩
  · obtain ⟨position, rfl, hposition⟩ := denotes_of_same h hexpr
    rw [Term.eval_map]
    refine Term.eval_congr interp _ fun ref href => ?_
    rw [List.getD_eq_getElem?_getD, hposition ref href, Option.getD_some]
  · rw [tryBindIndexExpression_of_found _ (fun c hc => (h c hc).symm ▸ hall c hc) hne]
    rfl

/-- A bound reference points to the column of its storage id, so that must be the column it
denotes. -/
theorem same_of_denotes (h : index.BindsDenotedColumns tableIndex tableColumns)
    (hfound : ∀ c ∈ index.keyColumns, logicalToPhysical index.columns c ∈ tableColumns) :
    ∀ c ∈ index.keyColumns, logicalToPhysical index.columns c = c := by
  intro c hc
  have hbound := tryBindIndexExpression_of_found tableIndex hfound
    (List.ne_nil_of_mem hc)
  obtain ⟨ref, href, rfl⟩ := List.mem_map.mp hc
  obtain ⟨position, hmap, hposition⟩ := h.denotes _ hbound
  have hrebind := (Term.map_eq_map_iff _).mp hmap ref href
  obtain ⟨i, hi⟩ := Option.isSome_iff_exists.mp
    ((index.isSome_scanPosition_iff tableColumns ref).mpr (hfound _ hc))
  have hindex : i = position ref := by
    rw [rebind, hi] at hrebind
    exact congrArg ColumnBinding.columnIndex hrebind
  have hstorage := index.getElem_scanPosition tableColumns hi
  rw [hindex, hposition ref href] at hstorage
  exact (Option.some.inj hstorage).symm

/-- The key is bound as it should be exactly when the columns it references have equal logical and
storage numbers, or else a column of its storage ids and one of its own are both missing. -/
theorem bindsDenotedColumns_iff (index : IndexKey F) (tableIndex : Nat) (tableColumns : List Nat) :
    index.BindsDenotedColumns tableIndex tableColumns ↔
      (∀ c ∈ index.keyColumns, logicalToPhysical index.columns c = c) ∨
      (∃ c ∈ index.keyColumns, logicalToPhysical index.columns c ∉ tableColumns) ∧
        ∃ c ∈ index.keyColumns, c ∉ tableColumns := by
  constructor
  · intro h
    by_cases hfound : ∀ c ∈ index.keyColumns, logicalToPhysical index.columns c ∈ tableColumns
    · exact Or.inl (same_of_denotes h hfound)
    · have hmissing : ∃ c ∈ index.keyColumns, logicalToPhysical index.columns c ∉ tableColumns := by
        simpa using hfound
      refine Or.inr ⟨hmissing, ?_⟩
      by_contra hall
      obtain ⟨c, hc, hnot⟩ := hmissing
      have hisSome := h.complete (List.ne_nil_of_mem hc) (by simpa using hall)
      rw [tryBindIndexExpression_of_missing _ ⟨c, hc, hnot⟩] at hisSome
      exact Bool.false_ne_true hisSome
  · rintro (hsame | ⟨hmissing, hmissing'⟩)
    · exact bindsDenotedColumns_of_same hsame
    · have hnone := tryBindIndexExpression_of_missing tableIndex hmissing
      refine ⟨fun expr hexpr => ?_, fun expr hexpr => ?_, fun _ hall => ?_⟩
      · rw [hnone] at hexpr
        cases hexpr
      · rw [hnone] at hexpr
        cases hexpr
      · obtain ⟨c, hc, hnot⟩ := hmissing'
        exact absurd (hall c hc) hnot

/-! ## A generated column in front of the key -/

/-- A table of a generated column `g` and two embeddings `a` and `b`, with an index over `b`. -/
def indexOnB : IndexKey Empty where
  columns := [.generated, .standard, .standard]
  columnIds := [2]
  unboundExpression := .var ⟨0, 0⟩
  standard := by decide
  inRange := by simp [Term.vars]

/-- In a scan of `a` and `b` the index over `b` is bound to `a`. -/
theorem indexOnB_misbound : ¬ indexOnB.BindsDenotedColumns 5 [1, 2] := by
  intro h
  obtain ⟨position, hmap, hposition⟩ := h.denotes (.var ⟨5, 0⟩) rfl
  have hzero : position ⟨0, 0⟩ = 0 := by
    simpa [indexOnB, Term.map] using hmap.symm
  have hcolumn := hposition ⟨0, 0⟩ (by simp [indexOnB, Term.vars])
  rw [hzero] at hcolumn
  exact absurd hcolumn (by decide)

end IndexKey

end PDXearch
