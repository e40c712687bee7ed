import PDXearch.Optimizer.Plan

/-!
# Projections over an index scan

`MergeProjections` runs over the whole plan after an index scan was put into it. Below a projection it
looks for a projection over an index scan, and replaces the expressions of the lower one that the upper
one does not refer to by a constant. Plans are trees of projections and of any other operators. What
an operator other than a projection does is a parameter: any function of the columns and the possible
outputs of its children.
-/

namespace PDXearch

open Lib

/-- What `MergeProjections` asks an operator for that is no projection: the function name of a
`LogicalGet`, or `GetName()` of an extension operator. -/
inductive OperatorKind
  | get (functionName : String)
  | extensionOperator (name : String)
  | other
  deriving DecidableEq

/-- Logical plans; `O` is what else there is to an operator. -/
inductive PlanTree (O F : Type)
  | projection (tableIndex : Nat) (expressions : List (Expression F)) (child : PlanTree O F)
  | operator (kind : OperatorKind) (data : O) (children : List (PlanTree O F))

namespace PlanTree

variable {O F : Type}

/-- A `LogicalGet` or an extension operator that the scan optimizer has created. -/
def isIndexScan : PlanTree O F → Bool
  | operator (.get functionName) _ _ => functionName = "pdxearch_index_scan"
  | operator (.extensionOperator name) _ _ => name = "PDXEARCH_INDEX_FILT_SCAN"
  | _ => false

/-- The bindings of the column references anywhere in the expressions. -/
def referencedBindings (expressions : List (Expression F)) : List ColumnBinding :=
  expressions.flatMap Term.vars

variable (nullConstant : F)

/-- The loop over the expressions of the lower projection, whose column bindings are its table index
with the positions; `nullConstant` is the constant NULL. -/
def replaceUnreferenced (referenced : List ColumnBinding) (tableIndex : Nat)
    (expressions : List (Expression F)) : List (Expression F) :=
  expressions.mapIdx fun i expression =>
    if (⟨tableIndex, i⟩ : ColumnBinding) ∈ referenced then expression
    else .app nullConstant []

/-- The child of a projection after the rewriting, if the pattern is there. -/
def mergeChild (parentExpressions : List (Expression F)) : PlanTree O F → Option (PlanTree O F)
  | projection tableIndex expressions scan =>
    if scan.isIndexScan then
      some (projection tableIndex
        (replaceUnreferenced nullConstant (referencedBindings parentExpressions) tableIndex
          expressions) scan)
    else none
  | operator _ _ _ => none

mutual

/-- `MergeProjections`; where it rewrites, it goes no deeper. -/
def mergeProjections : PlanTree O F → PlanTree O F
  | projection tableIndex expressions child =>
    projection tableIndex expressions
      (match mergeChild nullConstant expressions child with
      | some child => child
      | none => mergeProjections child)
  | operator kind data children => operator kind data (mergeProjectionsList children)

def mergeProjectionsList : List (PlanTree O F) → List (PlanTree O F)
  | [] => []
  | child :: children => mergeProjections child :: mergeProjectionsList children

end

end PlanTree

/-! ## The meaning of a plan -/

/-- The columns of a plan and the lists of rows that it may produce. -/
@[ext] structure PlanResult (X : Type) where
  columnBindings : List ColumnBinding
  produces : List (List X) → Prop

/-- The functions, and the operators other than projections: what they produce depends on the tables
they read and on what their children produce. -/
structure PlanMeaning (O F X : Type) where
  interp : F → List X → X
  operator : OperatorKind → O → List (PlanResult X) → PlanResult X

section Meaning

variable {O F X : Type} [Inhabited X]

/-- A row of a projection. -/
def projectRow (interp : F → List X → X) (expressions : List (Expression F))
    (bindings : List ColumnBinding) (row : List X) : List X :=
  expressions.map fun expression => expression.eval interp (lookup bindings row)

/-- A projection of what its child produces. -/
def projectionResult (interp : F → List X → X) (tableIndex : Nat)
    (expressions : List (Expression F)) (child : PlanResult X) : PlanResult X where
  columnBindings := generateColumnBindings tableIndex expressions.length
  produces out := ∃ input, child.produces input ∧
    out = input.map (projectRow interp expressions child.columnBindings)

namespace PlanTree

mutual

def result (meaning : PlanMeaning O F X) : PlanTree O F → PlanResult X
  | projection tableIndex expressions child =>
    projectionResult meaning.interp tableIndex expressions (child.result meaning)
  | operator kind data children => meaning.operator kind data (resultList meaning children)

def resultList (meaning : PlanMeaning O F X) : List (PlanTree O F) → List (PlanResult X)
  | [] => []
  | child :: children => child.result meaning :: resultList meaning children

end

/-! ## The rewriting -/

section Rewriting

variable (nullConstant : F)

@[simp] theorem length_replaceUnreferenced (referenced : List ColumnBinding) (tableIndex : Nat)
    (expressions : List (Expression F)) :
    (replaceUnreferenced nullConstant referenced tableIndex expressions).length =
      expressions.length := by
  simp [replaceUnreferenced]

/-- A column that is referred to reads the same from both rows. -/
theorem lookup_replaceUnreferenced (interp : F → List X → X) {referenced : List ColumnBinding}
    (tableIndex : Nat) (expressions : List (Expression F)) (bindings : List ColumnBinding)
    (row : List X) {ref : ColumnBinding} (href : ref ∈ referenced) :
    lookup (generateColumnBindings tableIndex expressions.length)
        (projectRow interp (replaceUnreferenced nullConstant referenced tableIndex expressions)
          bindings row)
        ref =
      lookup (generateColumnBindings tableIndex expressions.length)
        (projectRow interp expressions bindings row) ref := by
  by_cases hmem : ref ∈ generateColumnBindings tableIndex expressions.length
  · obtain ⟨htable, hlt⟩ := mem_generateColumnBindings.mp hmem
    have hlength := length_replaceUnreferenced nullConstant referenced tableIndex expressions
    have hmem' := hmem
    rw [← hlength] at hmem'
    have hboth := lookup_projection (fun expression => expression.eval interp (lookup bindings row))
      hmem'
    rw [hlength] at hboth
    rw [projectRow, projectRow, hboth, lookup_projection _ hmem]
    congr 1
    have hsame : (⟨tableIndex, ref.columnIndex⟩ : ColumnBinding) ∈ referenced := by
      rwa [← htable]
    simp [replaceUnreferenced, List.getD_eq_getElem?_getD, hlt, hsame]
  · -- no column at all: both rows are as long as the bindings
    have hidx : (generateColumnBindings tableIndex expressions.length).idxOf ref =
        expressions.length := by
      rw [List.idxOf_eq_length hmem]
      simp [generateColumnBindings]
    simp [lookup, hidx, projectRow]

/-- The upper projection produces the same rows from the rewritten lower one. -/
theorem projectRow_replaceUnreferenced (interp : F → List X → X)
    (parentExpressions : List (Expression F)) (tableIndex : Nat)
    (expressions : List (Expression F)) (bindings : List ColumnBinding) (row : List X) :
    let childBindings := generateColumnBindings tableIndex expressions.length
    projectRow interp parentExpressions childBindings
        (projectRow interp (replaceUnreferenced nullConstant (referencedBindings parentExpressions)
          tableIndex expressions) bindings row) =
      projectRow interp parentExpressions childBindings
        (projectRow interp expressions bindings row) := by
  refine List.map_congr_left fun expression hexpression => ?_
  refine Term.eval_congr interp expression fun ref href => ?_
  exact lookup_replaceUnreferenced nullConstant interp tableIndex expressions bindings row
    (List.mem_flatMap.mpr ⟨expression, hexpression, href⟩)

/-- A projection over the rewritten child. -/
theorem result_mergeChild (meaning : PlanMeaning O F X) (tableIndex : Nat)
    (expressions : List (Expression F)) {child child' : PlanTree O F}
    (h : mergeChild nullConstant expressions child = some child') :
    projectionResult meaning.interp tableIndex expressions (child'.result meaning) =
      projectionResult meaning.interp tableIndex expressions (child.result meaning) := by
  cases child with
  | operator kind data children => cases h
  | projection childTableIndex childExpressions scan =>
    rw [mergeChild] at h
    split at h
    · obtain rfl := (Option.some.inj h).symm
      simp only [result]
      ext out
      · rfl
      · simp only [projectionResult, length_replaceUnreferenced]
        -- each side maps twice over an output of the scan
        constructor
        · rintro ⟨_, ⟨input, hinput, rfl⟩, rfl⟩
          refine ⟨_, ⟨input, hinput, rfl⟩, ?_⟩
          simp only [List.map_map]
          exact List.map_congr_left fun row _ =>
            projectRow_replaceUnreferenced nullConstant meaning.interp expressions _ _ _ row
        · rintro ⟨_, ⟨input, hinput, rfl⟩, rfl⟩
          refine ⟨_, ⟨input, hinput, rfl⟩, ?_⟩
          simp only [List.map_map]
          exact List.map_congr_left fun row _ =>
            (projectRow_replaceUnreferenced nullConstant meaning.interp expressions _ _ _ row).symm
    · cases h

mutual

/-- The columns and the possible outputs of the whole plan stay the same. -/
theorem result_mergeProjections (meaning : PlanMeaning O F X) :
    ∀ plan : PlanTree O F, (mergeProjections nullConstant plan).result meaning = plan.result meaning
  | projection tableIndex expressions child => by
    rw [mergeProjections, result, result]
    cases h : mergeChild nullConstant expressions child with
    | some child' => exact result_mergeChild nullConstant meaning tableIndex expressions h
    | none =>
      simp only
      rw [result_mergeProjections meaning child]
  | operator kind data children => by
    rw [mergeProjections, result, result, resultList_mergeProjectionsList meaning children]

theorem resultList_mergeProjectionsList (meaning : PlanMeaning O F X) :
    ∀ children : List (PlanTree O F),
      resultList meaning (mergeProjectionsList nullConstant children) = resultList meaning children
  | [] => by rw [mergeProjectionsList]
  | child :: children => by
    rw [mergeProjectionsList, resultList, resultList, result_mergeProjections meaning child,
      resultList_mergeProjectionsList meaning children]

end

end Rewriting

/-! ## Plans without the pattern -/

def isProjectionOverIndexScan : PlanTree O F → Bool
  | projection _ _ scan => scan.isIndexScan
  | operator _ _ _ => false

mutual

/-- Somewhere in the plan there is a projection over a projection over an index scan. -/
def HasPattern : PlanTree O F → Prop
  | projection _ _ child => child.isProjectionOverIndexScan ∨ child.HasPattern
  | operator _ _ children => HasPatternList children

def HasPatternList : List (PlanTree O F) → Prop
  | [] => False
  | child :: children => child.HasPattern ∨ HasPatternList children

end

omit [Inhabited X] in
theorem mergeChild_eq_none (nullConstant : F) (expressions : List (Expression F))
    {child : PlanTree O F} (h : ¬ child.isProjectionOverIndexScan) :
    mergeChild nullConstant expressions child = none := by
  cases child with
  | projection tableIndex childExpressions scan => exact if_neg h
  | operator kind data children => rfl

mutual

theorem mergeProjections_eq_self (nullConstant : F) :
    ∀ plan : PlanTree O F, ¬ plan.HasPattern → mergeProjections nullConstant plan = plan
  | projection tableIndex expressions child, h => by
    rw [HasPattern, not_or] at h
    rw [mergeProjections, mergeChild_eq_none nullConstant expressions h.1]
    simp only
    rw [mergeProjections_eq_self nullConstant child h.2]
  | operator kind data children, h => by
    rw [HasPattern] at h
    rw [mergeProjections, mergeProjectionsList_eq_self nullConstant children h]

theorem mergeProjectionsList_eq_self (nullConstant : F) :
    ∀ children : List (PlanTree O F), ¬ HasPatternList children →
      mergeProjectionsList nullConstant children = children
  | [], _ => by rw [mergeProjectionsList]
  | child :: children, h => by
    rw [HasPatternList, not_or] at h
    rw [mergeProjectionsList, mergeProjections_eq_self nullConstant child h.1,
      mergeProjectionsList_eq_self nullConstant children h.2]

end

/-- Whatever the operators and the functions mean, the rewritten plan has the columns and the possible
outputs of the plan, and a plan without the pattern is not changed at all. -/
theorem mergeProjections_preserves (nullConstant : F) (meaning : PlanMeaning O F X)
    (plan : PlanTree O F) :
    (mergeProjections nullConstant plan).result meaning = plan.result meaning ∧
      (¬ plan.HasPattern → mergeProjections nullConstant plan = plan) :=
  ⟨result_mergeProjections nullConstant meaning plan, mergeProjections_eq_self nullConstant plan⟩

/-- A sum over a projection of two columns, one of which it refers to: the other becomes NULL. -/
example : mergeProjections (O := Unit) "NULL"
    (.projection 2 [.app "+" [.var ⟨1, 1⟩, .app "1" []]]
      (.projection 1 [.var ⟨0, 0⟩, .var ⟨0, 1⟩] (.operator (.get "pdxearch_index_scan") () []))) =
    .projection 2 [.app "+" [.var ⟨1, 1⟩, .app "1" []]]
      (.projection 1 [.app "NULL" [], .var ⟨0, 1⟩] (.operator (.get "pdxearch_index_scan") () [])) :=
  rfl

end PlanTree

end Meaning

/-! ## The plans of the scan optimizer -/

section LogicalOperators

variable {X Q D : Type}

def GetFunction.name : GetFunction X Q D → String
  | .seqScan => "seq_scan"
  | .pdxearchIndexScan _ => "pdxearch_index_scan"
  | .other name => name

/-- A plan of the scan optimizer as a tree; the operators are kept without their children. -/
def LogicalOperator.toTree : LogicalOperator X Q D → PlanTree (LogicalOperator X Q D) (Symbol X)
  | .topN limit offset orders child =>
    .operator .other (.topN limit offset orders .other) [child.toTree]
  | .projection tableIndex expressions child => .projection tableIndex expressions child.toTree
  | .get scan => .operator (.get scan.function.name) (.get scan) []
  | .pdxearchIndexScan table bindData columnIds tableIndex =>
    .operator (.extensionOperator "PDXEARCH_INDEX_SCAN")
      (.pdxearchIndexScan table bindData columnIds tableIndex) []
  | .pdxearchIndexFilteredScan table bindData columnIds tableIndex rowIdColumn child =>
    .operator (.extensionOperator "PDXEARCH_INDEX_FILT_SCAN")
      (.pdxearchIndexFilteredScan table bindData columnIds tableIndex rowIdColumn .other)
      [child.toTree]
  | .other => .operator .other .other []

variable [Inhabited X] [LinearOrder D] (values : Values X D)

/-- What the operators of the scan optimizer do with what their children produce. -/
def operatorResult : LogicalOperator X Q D → List (PlanResult X) → PlanResult X
  | .topN limit offset orders _, [child] => ⟨child.columnBindings, fun out =>
      ∃ input sorted : List (List X), child.produces input ∧ sorted.Perm input ∧
        sorted.Pairwise (ordersBefore values child.columnBindings orders) ∧
        out = (sorted.drop offset).take limit⟩
  | .pdxearchIndexFilteredScan table bindData columnIds tableIndex rowIdColumn _, [child] =>
    ⟨generateColumnBindings tableIndex columnIds.length, fun out =>
      ∃ (input : List (List X)) (hits : List (TableRow X)), child.produces input ∧
        IsNearest (bindData.distance values) bindData.limit
          (table.rows.filter fun row => row.rowId ∈ input.map fun out =>
            values.toRowId (rowIdColumn.eval values.interp (lookup child.columnBindings out))) hits ∧
        out = hits.map (emit values columnIds (generateColumnBindings tableIndex columnIds.length))⟩
  | operator, _ => ⟨operator.columnBindings, operator.Produces values⟩

def logicalMeaning : PlanMeaning (LogicalOperator X Q D) (Symbol X) X where
  interp := values.interp
  operator _ := operatorResult values

/-- The tree means what the plan means. -/
theorem LogicalOperator.result_toTree (plan : LogicalOperator X Q D) :
    plan.toTree.result (logicalMeaning values) =
      ⟨plan.columnBindings, fun out => plan.Produces values out⟩ := by
  induction plan with
  | topN limit offset orders child ih =>
    rw [toTree, PlanTree.result, PlanTree.resultList, PlanTree.resultList, ih]
    rfl
  | projection tableIndex expressions child ih =>
    rw [toTree, PlanTree.result, ih]
    rfl
  | get scan => rfl
  | pdxearchIndexScan table bindData columnIds tableIndex => rfl
  | pdxearchIndexFilteredScan table bindData columnIds tableIndex rowIdColumn child ih =>
    rw [toTree, PlanTree.result, PlanTree.resultList, PlanTree.resultList, ih]
    rfl
  | other => rfl

/-- Merging the projections of a plan that the scan optimizer has rewritten changes nothing that the
plan may produce. -/
theorem LogicalOperator.produces_mergeProjections (nullConstant : Symbol X)
    (plan : LogicalOperator X Q D) (out : List (List X)) :
    ((plan.toTree.mergeProjections nullConstant).result (logicalMeaning values)).produces out ↔
      plan.Produces values out := by
  rw [PlanTree.result_mergeProjections, result_toTree]

end LogicalOperators

end PDXearch
