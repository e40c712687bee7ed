import PDXearch.Optimizer.MergeProjections
import PDXearch.Optimizer.ScanOptimizer

/-!
# The optimizer over a whole plan

`Optimize` goes through a plan from the root down, rewrites wherever `TryOptimize` does, and merges
projections if anything was rewritten. Plans may have any other operators anywhere; what these do
with the results of their children is a parameter.
-/

namespace PDXearch

open Lib

/-- An operator without its children; `other` is one that the optimizer does not look into. -/
inductive PlanOperator (X Q D O : Type)
  | topN (limit offset : Nat) (orders : List (OrderByNode X))
  | get (scan : LogicalGet X Q D)
  | pdxearchIndexScan (table : Table X Q D) (bindData : ScanBindData X Q D) (columnIds : List Nat)
      (tableIndex : Nat)
  | pdxearchIndexFilteredScan (table : Table X Q D) (bindData : ScanBindData X Q D)
      (columnIds : List Nat) (tableIndex : Nat) (rowIdColumn : Expression (Symbol X))
  | other (data : O)

abbrev LogicalPlan (X Q D O : Type) : Type := PlanTree (PlanOperator X Q D O) (Symbol X)

section Plans

variable {X Q D O : Type}

/-- A plan of known operators as one among others. -/
def LogicalOperator.toPlan? : LogicalOperator X Q D → Option (LogicalPlan X Q D O)
  | .topN limit offset orders child =>
    child.toPlan?.map fun child => .operator .other (.topN limit offset orders) [child]
  | .projection tableIndex expressions child =>
    child.toPlan?.map fun child => .projection tableIndex expressions child
  | .get scan => some (.operator (.get scan.function.name) (.get scan) [])
  | .pdxearchIndexScan table bindData columnIds tableIndex =>
    some (.operator (.extensionOperator "PDXEARCH_INDEX_SCAN")
      (.pdxearchIndexScan table bindData columnIds tableIndex) [])
  | .pdxearchIndexFilteredScan table bindData columnIds tableIndex rowIdColumn child =>
    child.toPlan?.map fun child => .operator (.extensionOperator "PDXEARCH_INDEX_FILT_SCAN")
      (.pdxearchIndexFilteredScan table bindData columnIds tableIndex rowIdColumn) [child]
  | .other => none

/-- The plans that `TryOptimize` looks into. -/
def orderedScan? : LogicalPlan X Q D O → Option (OrderedScan X Q D)
  | .operator _ (.topN limit offset [order])
      [.projection tableIndex expressions (.operator _ (.get get) [])] =>
    some ⟨limit, offset, order, tableIndex, expressions, get⟩
  | _ => none

namespace PlanTree

mutual

/-- The number of operators, and of links between them. -/
def size {F : Type} : PlanTree O F → Nat
  | projection _ _ child => child.size + 1
  | operator _ _ children => sizeList children + 1

def sizeList {F : Type} : List (PlanTree O F) → Nat
  | [] => 0
  | child :: children => child.size + sizeList children + 1

end

mutual

/-- A plan and all plans below it. -/
def subplans {F : Type} : PlanTree O F → List (PlanTree O F)
  | projection tableIndex expressions child =>
    projection tableIndex expressions child :: child.subplans
  | operator kind data children => operator kind data children :: subplansList children

def subplansList {F : Type} : List (PlanTree O F) → List (PlanTree O F)
  | [] => []
  | child :: children => child.subplans ++ subplansList children

end

end PlanTree

/-! ## The pass -/

namespace PDXearchIndexScanOptimizer

section TryOptimize

variable [DecidableEq X]

/-- `TryOptimize` -/
def tryOptimize (globalVersion : Bool) (plan : LogicalPlan X Q D O) :
    Option (LogicalPlan X Q D O) :=
  (orderedScan? plan).bind fun q =>
    (PDXearch.tryOptimize globalVersion q.plan).bind LogicalOperator.toPlan?

/-- The plan that `TryOptimize` leaves, and what it returns. -/
def tried (globalVersion : Bool) (plan : LogicalPlan X Q D O) : LogicalPlan X Q D O × Bool :=
  match tryOptimize globalVersion plan with
  | some plan' => (plan', true)
  | none => (plan, false)

/-- What is put in the place of a table scan. -/
inductive IsPut : LogicalPlan X Q D O → Prop
  | get (get : LogicalGet X Q D) (bindData : ScanBindData X Q D) :
    IsPut (.operator (.get "pdxearch_index_scan")
      (.get { get with function := .pdxearchIndexScan bindData }) [])
  | nonFiltered (table : Table X Q D) (bindData : ScanBindData X Q D) (columnIds : List Nat)
    (tableIndex : Nat) :
    IsPut (.operator (.extensionOperator "PDXEARCH_INDEX_SCAN")
      (.pdxearchIndexScan table bindData columnIds tableIndex) [])
  | filtered (table : Table X Q D) (bindData : ScanBindData X Q D) (columnIds : List Nat)
    (tableIndex : Nat) (rowIdColumn : Expression (Symbol X)) (functionName : String)
    (get : LogicalGet X Q D) :
    IsPut (.operator (.extensionOperator "PDXEARCH_INDEX_FILT_SCAN")
      (.pdxearchIndexFilteredScan table bindData columnIds tableIndex rowIdColumn)
      [.operator (.get functionName) (.get get) []])

variable {globalVersion : Bool} {plan plan' : LogicalPlan X Q D O} {q : OrderedScan X Q D}

omit [DecidableEq X] in
theorem exists_of_orderedScan? (h : orderedScan? plan = some q) :
    ∃ kind kind', plan = .operator kind (.topN q.limit q.offset [q.order])
      [.projection q.tableIndex q.expressions (.operator kind' (.get q.get) [])] := by
  unfold orderedScan? at h
  split at h
  · obtain rfl := Option.some.inj h
    exact ⟨_, _, rfl⟩
  · cases h

/-- A rewritten plan is a projection over an index scan, and means what `tryOptimize` of the
operators alone says. -/
theorem exists_of_tryOptimize (h : tryOptimize globalVersion plan = some plan') :
    ∃ q op scan, orderedScan? plan = some q ∧
      PDXearch.tryOptimize globalVersion q.plan = some op ∧ op.toPlan? = some plan' ∧
      plan' = .projection q.tableIndex q.expressions scan ∧ IsPut scan := by
  obtain ⟨q, hq, h⟩ := Option.bind_eq_some_iff.mp h
  obtain ⟨op, hop, hplan⟩ := Option.bind_eq_some_iff.mp h
  obtain ⟨q', hq', -, -, ref, bindData, -, -, rfl⟩ := PDXearch.exists_of_tryOptimize hop
  obtain rfl := OrderedScan.plan_injective hq'
  obtain ⟨scan, hscan, rfl⟩ := Option.map_eq_some_iff.mp hplan
  refine ⟨q, _, scan, hq, hop, hplan, rfl, ?_⟩
  split at hscan
  · cases globalVersion with
    | true =>
      obtain rfl := Option.some.inj hscan
      exact .get q.get bindData
    | false =>
      obtain rfl := Option.some.inj hscan
      exact .nonFiltered q.get.table bindData q.get.columnIds q.get.tableIndex
  · obtain rfl := Option.some.inj hscan
    exact .filtered _ _ _ _ _ _ _

theorem size_tried_le (globalVersion : Bool) (plan : LogicalPlan X Q D O) :
    (tried globalVersion plan).1.size ≤ plan.size := by
  unfold tried
  split
  · rename_i plan' h
    obtain ⟨q, op, scan, hq, -, -, rfl, hscan⟩ := exists_of_tryOptimize h
    obtain ⟨kind, kind', rfl⟩ := exists_of_orderedScan? hq
    cases hscan <;> simp [PlanTree.size, PlanTree.sizeList]
  · exact le_rfl

mutual

/-- `OptimizeChildren` -/
def optimizeChildren (globalVersion : Bool) (plan : LogicalPlan X Q D O) :
    LogicalPlan X Q D O × Bool :=
  match h : tried globalVersion plan with
  | (.projection tableIndex expressions child, ok) =>
    have : child.size < plan.size := by
      have hle := size_tried_le globalVersion plan
      rw [h, PlanTree.size] at hle
      exact hle
    let (child, childOk) := optimizeChildren globalVersion child
    (.projection tableIndex expressions child, ok || childOk)
  | (.operator kind data children, ok) =>
    have : PlanTree.sizeList children < plan.size := by
      have hle := size_tried_le globalVersion plan
      rw [h, PlanTree.size] at hle
      exact hle
    let (children, childrenOk) := optimizeEach globalVersion children
    (.operator kind data children, ok || childrenOk)
termination_by plan.size

/-- The loop over the children. -/
def optimizeEach (globalVersion : Bool) (children : List (LogicalPlan X Q D O)) :
    List (LogicalPlan X Q D O) × Bool :=
  match children with
  | [] => ([], false)
  | child :: children =>
    have : child.size < PlanTree.sizeList (child :: children) := by
      rw [PlanTree.sizeList]
      omega
    have : PlanTree.sizeList children < PlanTree.sizeList (child :: children) := by
      rw [PlanTree.sizeList]
      omega
    let (child, ok) := optimizeChildren globalVersion child
    let (children, childrenOk) := optimizeEach globalVersion children
    (child :: children, ok || childrenOk)
termination_by PlanTree.sizeList children

end

/-- `Optimize` -/
def optimize (globalVersion : Bool) (nullConstant : Symbol X) (plan : LogicalPlan X Q D O) :
    LogicalPlan X Q D O :=
  let (plan, didUsePdxearchScan) := optimizeChildren globalVersion plan
  if didUsePdxearchScan then plan.mergeProjections nullConstant else plan

/-! ## What the pass does to a plan -/

theorem tryOptimize_projection (tableIndex : Nat) (expressions : List (Expression (Symbol X)))
    (child : LogicalPlan X Q D O) :
    tryOptimize globalVersion (.projection tableIndex expressions child) = none := rfl

theorem tried_of_none (h : tryOptimize globalVersion plan = none) :
    tried globalVersion plan = (plan, false) := by
  rw [tried, h]

/-- What the recursion makes of the plan that `TryOptimize` leaves. -/
def optimizeBelow (globalVersion : Bool) : LogicalPlan X Q D O × Bool → LogicalPlan X Q D O × Bool
  | (.projection tableIndex expressions child, ok) =>
    (.projection tableIndex expressions (optimizeChildren globalVersion child).1,
      ok || (optimizeChildren globalVersion child).2)
  | (.operator kind data children, ok) =>
    (.operator kind data (optimizeEach globalVersion children).1,
      ok || (optimizeEach globalVersion children).2)

theorem optimizeChildren_eq (globalVersion : Bool) (plan : LogicalPlan X Q D O) :
    optimizeChildren globalVersion plan =
      optimizeBelow globalVersion (tried globalVersion plan) := by
  rw [optimizeChildren]
  split
  · rename_i h
    exact congrArg (optimizeBelow globalVersion) h.symm
  · rename_i h
    exact congrArg (optimizeBelow globalVersion) h.symm

theorem optimizeChildren_projection (tableIndex : Nat)
    (expressions : List (Expression (Symbol X))) (child : LogicalPlan X Q D O) :
    optimizeChildren globalVersion (.projection tableIndex expressions child) =
      (.projection tableIndex expressions (optimizeChildren globalVersion child).1,
        (optimizeChildren globalVersion child).2) := by
  rw [optimizeChildren_eq, tried_of_none (tryOptimize_projection tableIndex expressions child)]
  rfl

theorem optimizeChildren_operator {kind : OperatorKind} {data : PlanOperator X Q D O}
    {children : List (LogicalPlan X Q D O)}
    (h : tryOptimize globalVersion (.operator kind data children) = none) :
    optimizeChildren globalVersion (.operator kind data children) =
      (.operator kind data (optimizeEach globalVersion children).1,
        (optimizeEach globalVersion children).2) := by
  rw [optimizeChildren_eq, tried_of_none h]
  rfl

theorem optimizeEach_nil : optimizeEach (X := X) (Q := Q) (D := D) (O := O) globalVersion [] =
    ([], false) := by
  rw [optimizeEach]

theorem optimizeEach_cons (child : LogicalPlan X Q D O) (children : List (LogicalPlan X Q D O)) :
    optimizeEach globalVersion (child :: children) =
      ((optimizeChildren globalVersion child).1 :: (optimizeEach globalVersion children).1,
        (optimizeChildren globalVersion child).2 || (optimizeEach globalVersion children).2) := by
  rw [optimizeEach]

omit [DecidableEq X] in
/-- There is nothing to be rewritten in what was put in. -/
theorem IsPut.orderedScan?_eq {scan : LogicalPlan X Q D O} (h : IsPut scan) :
    ∀ sub ∈ scan.subplans, orderedScan? sub = none := by
  intro sub hsub
  cases h <;> simp only [PlanTree.subplans, PlanTree.subplansList, List.mem_cons, List.append_nil,
    List.not_mem_nil, or_false] at hsub
  · rw [hsub]
    rfl
  · rw [hsub]
    rfl
  · rcases hsub with rfl | rfl
    · rfl
    · rfl

mutual

/-- A plan in which nothing can be rewritten stays as it is. -/
theorem optimizeChildren_eq_self : ∀ plan : LogicalPlan X Q D O,
    (∀ sub ∈ plan.subplans, tryOptimize globalVersion sub = none) →
      optimizeChildren globalVersion plan = (plan, false)
  | .projection tableIndex expressions child, h => by
    rw [PlanTree.subplans] at h
    rw [optimizeChildren_projection, optimizeChildren_eq_self child fun sub hsub =>
      h sub (List.mem_cons_of_mem _ hsub)]
  | .operator kind data children, h => by
    rw [PlanTree.subplans] at h
    rw [optimizeChildren_operator (h _ List.mem_cons_self),
      optimizeEach_eq_self children fun sub hsub => h sub (List.mem_cons_of_mem _ hsub)]

theorem optimizeEach_eq_self : ∀ children : List (LogicalPlan X Q D O),
    (∀ sub ∈ PlanTree.subplansList children, tryOptimize globalVersion sub = none) →
      optimizeEach globalVersion children = (children, false)
  | [], _ => optimizeEach_nil
  | child :: children, h => by
    rw [PlanTree.subplansList] at h
    rw [optimizeEach_cons, optimizeChildren_eq_self child fun sub hsub =>
      h sub (List.mem_append_left _ hsub), optimizeEach_eq_self children fun sub hsub =>
      h sub (List.mem_append_right _ hsub)]
    rfl

end

/-- The recursion goes on into what was put in, and finds nothing. -/
theorem optimizeChildren_of_some (h : tryOptimize globalVersion plan = some plan') :
    optimizeChildren globalVersion plan = (plan', true) := by
  have htried : tried globalVersion plan = (plan', true) := by
    rw [tried, h]
  obtain ⟨q, op, scan, -, -, -, rfl, hscan⟩ := exists_of_tryOptimize h
  have hnone : optimizeChildren globalVersion scan = (scan, false) := by
    refine optimizeChildren_eq_self scan fun sub hsub => ?_
    rw [tryOptimize, hscan.orderedScan?_eq sub hsub]
    rfl
  rw [optimizeChildren_eq, htried, optimizeBelow, hnone]
  rfl

mutual

/-- The pass tells whether anything was rewritten. -/
theorem optimizeChildren_snd : ∀ plan : LogicalPlan X Q D O,
    (optimizeChildren globalVersion plan).2 = true ↔
      ∃ sub ∈ plan.subplans, (tryOptimize globalVersion sub).isSome
  | .projection tableIndex expressions child => by
    rw [optimizeChildren_projection, optimizeChildren_snd child, PlanTree.subplans]
    simp [tryOptimize_projection]
  | .operator kind data children => by
    rw [PlanTree.subplans]
    cases h : tryOptimize globalVersion (.operator kind data children) with
    | some plan' => simp [optimizeChildren_of_some h, h]
    | none =>
      rw [optimizeChildren_operator h, optimizeEach_snd children]
      simp [h]

theorem optimizeEach_snd : ∀ children : List (LogicalPlan X Q D O),
    (optimizeEach globalVersion children).2 = true ↔
      ∃ sub ∈ PlanTree.subplansList children, (tryOptimize globalVersion sub).isSome
  | [] => by simp [optimizeEach_nil, PlanTree.subplansList]
  | child :: children => by
    rw [optimizeEach_cons, Bool.or_eq_true, optimizeChildren_snd child, optimizeEach_snd children,
      PlanTree.subplansList]
    simp [or_and_right, exists_or]

end

/-! ## A second pass finds nothing -/

/-- An operator without children stays one, and is not made by the pass. -/
theorem eq_of_optimizeChildren_leaf {kind : OperatorKind} {data : PlanOperator X Q D O}
    (h : (optimizeChildren globalVersion plan).1 = .operator kind data []) :
    plan = .operator kind data [] := by
  cases plan with
  | projection tableIndex expressions child =>
    rw [optimizeChildren_projection] at h
    cases h
  | operator kind' data' children =>
    cases htry : tryOptimize globalVersion (.operator kind' data' children) with
    | some plan' =>
      rw [optimizeChildren_of_some htry] at h
      obtain ⟨q, op, scan, -, -, -, rfl, -⟩ := exists_of_tryOptimize htry
      cases h
    | none =>
      rw [optimizeChildren_operator htry] at h
      cases children with
      | nil =>
        rw [optimizeEach_nil] at h
        exact h
      | cons child children =>
        rw [optimizeEach_cons] at h
        cases h

/-- Where nothing is rewritten before its children are optimized, nothing would be after that. -/
theorem tryOptimize_optimizeEach {kind : OperatorKind} {data : PlanOperator X Q D O}
    {children : List (LogicalPlan X Q D O)}
    (h : tryOptimize globalVersion (.operator kind data children) = none) :
    tryOptimize globalVersion (.operator kind data (optimizeEach globalVersion children).1) =
      none := by
  by_contra hne
  obtain ⟨plan'', hsome⟩ := Option.ne_none_iff_exists'.mp hne
  obtain ⟨q, op, -, hq, hop, -⟩ := exists_of_tryOptimize hsome
  obtain ⟨q', hq', -, hfunction, -⟩ := PDXearch.exists_of_tryOptimize hop
  obtain rfl := OrderedScan.plan_injective hq'
  obtain ⟨kind', kind'', heq⟩ := exists_of_orderedScan? hq
  obtain ⟨rfl, rfl, hchildren⟩ := PlanTree.operator.inj heq
  suffices hsame : children =
      [.projection q.tableIndex q.expressions (.operator kind'' (.get q.get) [])] by
    rw [hsame, ← hchildren] at h
    exact hne h
  cases children with
  | nil =>
    rw [optimizeEach_nil] at hchildren
    cases hchildren
  | cons child rest =>
    rw [optimizeEach_cons] at hchildren
    obtain ⟨hchild, hrest⟩ := List.cons.inj hchildren
    have hrest : rest = [] := by
      cases rest with
      | nil => rfl
      | cons other rest =>
        rw [optimizeEach_cons] at hrest
        cases hrest
    subst hrest
    refine congrArg (· :: []) ?_
    cases child with
    | projection tableIndex expressions child =>
      rw [optimizeChildren_projection] at hchild
      obtain ⟨rfl, rfl, hget⟩ := PlanTree.projection.inj hchild
      rw [eq_of_optimizeChildren_leaf hget]
    | operator kind data children =>
      cases htry : tryOptimize globalVersion (.operator kind data children) with
      | some plan' =>
        -- an index scan that was put in is no table scan any more
        rw [optimizeChildren_of_some htry] at hchild
        obtain ⟨q', op', scan, -, -, -, rfl, hscan⟩ := exists_of_tryOptimize htry
        obtain ⟨-, -, hget⟩ := PlanTree.projection.inj hchild
        subst hget
        generalize hg : q.get = g at hscan
        cases hscan with
        | get get bindData =>
          rw [hg] at hfunction
          cases hfunction
      | none =>
        rw [optimizeChildren_operator htry] at hchild
        cases hchild

mutual

theorem tryOptimize_optimizeChildren : ∀ plan : LogicalPlan X Q D O,
    ∀ sub ∈ (optimizeChildren globalVersion plan).1.subplans, tryOptimize globalVersion sub = none
  | .projection tableIndex expressions child => by
    rw [optimizeChildren_projection, PlanTree.subplans, List.forall_mem_cons]
    exact ⟨tryOptimize_projection _ _ _, tryOptimize_optimizeChildren child⟩
  | .operator kind data children => by
    cases h : tryOptimize globalVersion (.operator kind data children) with
    | some plan' =>
      rw [optimizeChildren_of_some h]
      obtain ⟨q, op, scan, -, -, -, rfl, hscan⟩ := exists_of_tryOptimize h
      rw [PlanTree.subplans, List.forall_mem_cons]
      refine ⟨tryOptimize_projection _ _ _, fun sub hsub => ?_⟩
      rw [tryOptimize, hscan.orderedScan?_eq sub hsub]
      rfl
    | none =>
      rw [optimizeChildren_operator h, PlanTree.subplans, List.forall_mem_cons]
      exact ⟨tryOptimize_optimizeEach h, tryOptimize_optimizeEach_subplans children⟩

theorem tryOptimize_optimizeEach_subplans : ∀ children : List (LogicalPlan X Q D O),
    ∀ sub ∈ PlanTree.subplansList (optimizeEach globalVersion children).1,
      tryOptimize globalVersion sub = none
  | [] => by simp [optimizeEach_nil, PlanTree.subplansList]
  | child :: children => by
    rw [optimizeEach_cons, PlanTree.subplansList, List.forall_mem_append]
    exact ⟨tryOptimize_optimizeChildren child, tryOptimize_optimizeEach_subplans children⟩

end

/-! ## Merged projections -/

omit [DecidableEq X] in
theorem eq_of_mergeProjections_leaf (nullConstant : Symbol X) {kind : OperatorKind}
    {data : PlanOperator X Q D O}
    (h : plan.mergeProjections nullConstant = .operator kind data []) :
    plan = .operator kind data [] := by
  cases plan with
  | projection tableIndex expressions child =>
    rw [PlanTree.mergeProjections] at h
    cases h
  | operator kind' data' children =>
    cases children with
    | nil =>
      rw [PlanTree.mergeProjections, PlanTree.mergeProjectionsList] at h
      exact h
    | cons child children =>
      rw [PlanTree.mergeProjections, PlanTree.mergeProjectionsList] at h
      cases h

omit [DecidableEq X] in
/-- The plans that `TryOptimize` looks into have no projections to merge. -/
theorem orderedScan?_mergeProjections (nullConstant : Symbol X)
    (h : orderedScan? (plan.mergeProjections nullConstant) = some q) :
    orderedScan? plan = some q := by
  obtain ⟨kind, kind', heq⟩ := exists_of_orderedScan? h
  cases plan with
  | projection tableIndex expressions child =>
    rw [PlanTree.mergeProjections] at heq
    cases heq
  | operator kind data children =>
    rw [PlanTree.mergeProjections] at heq
    obtain ⟨rfl, rfl, hchildren⟩ := PlanTree.operator.inj heq
    cases children with
    | nil =>
      rw [PlanTree.mergeProjectionsList] at hchildren
      cases hchildren
    | cons child rest =>
      rw [PlanTree.mergeProjectionsList] at hchildren
      obtain ⟨hchild, hrest⟩ := List.cons.inj hchildren
      have hrest : rest = [] := by
        cases rest with
        | nil => rfl
        | cons other rest =>
          rw [PlanTree.mergeProjectionsList] at hrest
          cases hrest
      subst hrest
      cases child with
      | operator kind data children =>
        rw [PlanTree.mergeProjections] at hchild
        cases hchild
      | projection tableIndex expressions child =>
        rw [PlanTree.mergeProjections] at hchild
        obtain ⟨rfl, rfl, hget⟩ := PlanTree.projection.inj hchild
        split at hget
        · rename_i child' hmerge
          subst hget
          unfold PlanTree.mergeChild at hmerge
          split at hmerge
          · split at hmerge
            · cases hmerge
            · cases hmerge
          · cases hmerge
        · rw [eq_of_mergeProjections_leaf nullConstant hget]
          rfl

theorem tryOptimize_mergeProjections (nullConstant : Symbol X)
    (h : tryOptimize globalVersion plan = none) :
    tryOptimize globalVersion (plan.mergeProjections nullConstant) = none := by
  cases hq : orderedScan? (plan.mergeProjections nullConstant) with
  | none =>
    rw [tryOptimize, hq]
    rfl
  | some q =>
    rw [tryOptimize, orderedScan?_mergeProjections nullConstant hq] at h
    rw [tryOptimize, hq, h]

mutual

theorem tryOptimize_mergeProjections_subplans (nullConstant : Symbol X) :
    ∀ plan : LogicalPlan X Q D O,
      (∀ sub ∈ plan.subplans, tryOptimize globalVersion sub = none) →
        ∀ sub ∈ (plan.mergeProjections nullConstant).subplans,
          tryOptimize globalVersion sub = none
  | .projection tableIndex expressions child, h => by
    rw [PlanTree.subplans, List.forall_mem_cons] at h
    rw [PlanTree.mergeProjections, PlanTree.subplans, List.forall_mem_cons]
    refine ⟨tryOptimize_projection _ _ _, ?_⟩
    split
    · rename_i child' hmerge
      cases child with
      | operator kind data children => cases hmerge
      | projection childTableIndex childExpressions scan =>
        rw [PlanTree.mergeChild] at hmerge
        split at hmerge
        · obtain rfl := Option.some.inj hmerge
          have hscan := h.2
          rw [PlanTree.subplans, List.forall_mem_cons] at hscan ⊢
          exact ⟨tryOptimize_projection _ _ _, hscan.2⟩
        · cases hmerge
    · exact tryOptimize_mergeProjections_subplans nullConstant child h.2
  | .operator kind data children, h => by
    rw [PlanTree.subplans, List.forall_mem_cons] at h
    have hself := tryOptimize_mergeProjections nullConstant h.1
    rw [PlanTree.mergeProjections] at hself ⊢
    rw [PlanTree.subplans, List.forall_mem_cons]
    exact ⟨hself, tryOptimize_mergeProjectionsList_subplans nullConstant children h.2⟩

theorem tryOptimize_mergeProjectionsList_subplans (nullConstant : Symbol X) :
    ∀ children : List (LogicalPlan X Q D O),
      (∀ sub ∈ PlanTree.subplansList children, tryOptimize globalVersion sub = none) →
        ∀ sub ∈ PlanTree.subplansList (PlanTree.mergeProjectionsList nullConstant children),
          tryOptimize globalVersion sub = none
  | [], h => h
  | child :: children, h => by
    rw [PlanTree.subplansList, List.forall_mem_append] at h
    rw [PlanTree.mergeProjectionsList, PlanTree.subplansList, List.forall_mem_append]
    exact ⟨tryOptimize_mergeProjections_subplans nullConstant child h.1,
      tryOptimize_mergeProjectionsList_subplans nullConstant children h.2⟩

end

theorem optimize_eq (globalVersion : Bool) (nullConstant : Symbol X) (plan : LogicalPlan X Q D O) :
    optimize globalVersion nullConstant plan =
      if (optimizeChildren globalVersion plan).2 then
        (optimizeChildren globalVersion plan).1.mergeProjections nullConstant
      else (optimizeChildren globalVersion plan).1 := rfl

theorem optimize_eq_self (nullConstant : Symbol X)
    (h : ∀ sub ∈ plan.subplans, tryOptimize globalVersion sub = none) :
    optimize globalVersion nullConstant plan = plan := by
  rw [optimize_eq, optimizeChildren_eq_self plan h]
  rfl

theorem tryOptimize_optimize (nullConstant : Symbol X) (plan : LogicalPlan X Q D O) :
    ∀ sub ∈ (optimize globalVersion nullConstant plan).subplans,
      tryOptimize globalVersion sub = none := by
  rw [optimize_eq]
  split_ifs
  · exact tryOptimize_mergeProjections_subplans nullConstant _ (tryOptimize_optimizeChildren plan)
  · exact tryOptimize_optimizeChildren plan

end TryOptimize

/-! ## What the optimized plan may produce -/

section Result

variable [DecidableEq X] [Inhabited X] [LinearOrder D] (values : Values X D)
  (other : O → List (PlanResult X) → PlanResult X)

/-- What an operator makes of the results of its children. -/
def operatorMeaning : PlanOperator X Q D O → List (PlanResult X) → PlanResult X
  | .topN limit offset orders, children =>
    operatorResult values (.topN limit offset orders (.other : LogicalOperator X Q D)) children
  | .get scan, children => operatorResult values (.get scan) children
  | .pdxearchIndexScan table bindData columnIds tableIndex, children =>
    operatorResult values (.pdxearchIndexScan table bindData columnIds tableIndex) children
  | .pdxearchIndexFilteredScan table bindData columnIds tableIndex rowIdColumn, children =>
    operatorResult values
      (.pdxearchIndexFilteredScan table bindData columnIds tableIndex rowIdColumn .other) children
  | .other data, children => other data children

/-- The meaning of plans that have other operators. -/
def planMeaning : PlanMeaning (PlanOperator X Q D O) (Symbol X) X where
  interp := values.interp
  operator _ := operatorMeaning values other

variable {values other} {globalVersion : Bool} {plan plan' : LogicalPlan X Q D O}

omit [DecidableEq X] in
theorem result_of_toPlan? {op : LogicalOperator X Q D} (h : op.toPlan? = some plan) :
    plan.result (planMeaning values other) =
      ⟨op.columnBindings, fun out => op.Produces values out⟩ := by
  induction op generalizing plan with
  | topN limit offset orders child ih =>
    obtain ⟨child', hchild, rfl⟩ := Option.map_eq_some_iff.mp h
    rw [PlanTree.result, PlanTree.resultList, PlanTree.resultList, ih hchild]
    rfl
  | projection tableIndex expressions child ih =>
    obtain ⟨child', hchild, rfl⟩ := Option.map_eq_some_iff.mp h
    rw [PlanTree.result, ih hchild]
    rfl
  | get scan =>
    obtain rfl := Option.some.inj h
    rfl
  | pdxearchIndexScan table bindData columnIds tableIndex =>
    obtain rfl := Option.some.inj h
    rfl
  | pdxearchIndexFilteredScan table bindData columnIds tableIndex rowIdColumn child ih =>
    obtain ⟨child', hchild, rfl⟩ := Option.map_eq_some_iff.mp h
    rw [PlanTree.result, PlanTree.resultList, PlanTree.resultList, ih hchild]
    rfl
  | other => cases h

omit [DecidableEq X] in
theorem result_of_orderedScan? {q : OrderedScan X Q D} (h : orderedScan? plan = some q) :
    plan.result (planMeaning values other) =
      ⟨q.plan.columnBindings, fun out => q.plan.Produces values out⟩ := by
  obtain ⟨kind, kind', rfl⟩ := exists_of_orderedScan? h
  rfl

/-- What a rewriting keeps if the results of its operators are the same. -/
theorem result_tryOptimize (h : tryOptimize globalVersion plan = some plan')
    (hsame : ∀ q ∈ orderedScan? plan, ∀ op ∈ PDXearch.tryOptimize globalVersion q.plan,
      ∀ out, op.Produces values out ↔ q.plan.Produces values out) :
    plan'.result (planMeaning values other) = plan.result (planMeaning values other) := by
  obtain ⟨q, op, scan, hq, hop, hplan, rfl, -⟩ := exists_of_tryOptimize h
  rw [result_of_orderedScan? hq]
  have hproduces : (PlanTree.projection q.tableIndex q.expressions scan).result
      (planMeaning values other) = _ := result_of_toPlan? hplan
  ext out
  · rfl
  · rw [hproduces]
    exact hsame q hq op hop out

mutual

theorem result_optimizeChildren : ∀ plan : LogicalPlan X Q D O,
    (∀ sub ∈ plan.subplans, ∀ plan' ∈ tryOptimize globalVersion sub,
      plan'.result (planMeaning values other) = sub.result (planMeaning values other)) →
    (optimizeChildren globalVersion plan).1.result (planMeaning values other) =
      plan.result (planMeaning values other)
  | .projection tableIndex expressions child, h => by
    rw [PlanTree.subplans, List.forall_mem_cons] at h
    rw [optimizeChildren_projection, PlanTree.result, PlanTree.result,
      result_optimizeChildren child h.2]
  | .operator kind data children, h => by
    rw [PlanTree.subplans, List.forall_mem_cons] at h
    cases htry : tryOptimize globalVersion (.operator kind data children) with
    | some plan' =>
      rw [optimizeChildren_of_some htry]
      exact h.1 plan' htry
    | none =>
      rw [optimizeChildren_operator htry, PlanTree.result, PlanTree.result,
        resultList_optimizeEach children h.2]

theorem resultList_optimizeEach : ∀ children : List (LogicalPlan X Q D O),
    (∀ sub ∈ PlanTree.subplansList children, ∀ plan' ∈ tryOptimize globalVersion sub,
      plan'.result (planMeaning values other) = sub.result (planMeaning values other)) →
    PlanTree.resultList (planMeaning values other) (optimizeEach globalVersion children).1 =
      PlanTree.resultList (planMeaning values other) children
  | [], _ => by rw [optimizeEach_nil]
  | child :: children, h => by
    rw [PlanTree.subplansList, List.forall_mem_append] at h
    rw [optimizeEach_cons, PlanTree.resultList, PlanTree.resultList,
      result_optimizeChildren child h.1, resultList_optimizeEach children h.2]

end

/-- A scan that an index can answer: it is bound, an index that is found orders its rows as the plan
does, and the slice that is asked for is the nearest rows. -/
structure Answerable (values : Values X D) (q : OrderedScan X Q D) : Prop where
  bound : q.plan.Bound
  exactSearch : q.ExactSearch values
  slice : SliceIsNearest q.order.nullOrder q.limit q.offset
    ((q.get.passing values : Multiset (TableRow X)).filter fun row =>
      q.rowKey values row ≠ ⊤).card
    ((q.get.passing values : Multiset (TableRow X)).filter fun row =>
      ¬ q.rowKey values row ≠ ⊤).card
    (ties (q.rowKey values) (q.get.passing values : Multiset (TableRow X)))

theorem Answerable.produces_iff {q : OrderedScan X Q D} (hq : Answerable values q)
    {op : LogicalOperator X Q D} (h : PDXearch.tryOptimize globalVersion q.plan = some op)
    (out : List (List X)) : op.Produces values out ↔ q.plan.Produces values out := by
  obtain ⟨q', hplan, htype, hfunction, -⟩ := PDXearch.exists_of_tryOptimize h
  obtain rfl := OrderedScan.plan_injective hplan
  rw [OrderedScan.produces_rewritten_iff hq.bound hq.exactSearch h,
    OrderedScan.produces_plan_iff hq.bound htype hfunction]
  have hkey : ∀ row ∈ (q.get.passing values : Multiset (TableRow X)),
      q.outputKey values (q.project values row) = q.rowKey values row := fun _ _ => rfl
  exact (isNearest_map_iff_isTopN_map _ _ _ hkey).mpr hq.slice out

variable (values other) in
/-- What the optimizer does to a plan: the plan may produce what it could before, it is changed only
where a scan is taken away, which is what the pass says, and nothing is left for a second pass. -/
structure OptimizesPlan (globalVersion : Bool) (nullConstant : Symbol X)
    (plan : LogicalPlan X Q D O) : Prop where
  result_eq : (optimize globalVersion nullConstant plan).result (planMeaning values other) =
    plan.result (planMeaning values other)
  rewrites_iff : (optimizeChildren globalVersion plan).2 = true ↔
    ∃ sub ∈ plan.subplans, (tryOptimize globalVersion sub).isSome
  eq_self : (∀ sub ∈ plan.subplans, tryOptimize globalVersion sub = none) →
    optimize globalVersion nullConstant plan = plan
  again : optimize globalVersion nullConstant (optimize globalVersion nullConstant plan) =
    optimize globalVersion nullConstant plan

/-- If every scan that is taken away could be answered by its index, the whole plan is preserved,
whatever its other operators are. -/
theorem optimize_preserves (nullConstant : Symbol X) {plan : LogicalPlan X Q D O}
    (h : ∀ sub ∈ plan.subplans, ∀ q ∈ orderedScan? sub,
      (PDXearch.tryOptimize globalVersion q.plan).isSome → Answerable values q) :
    OptimizesPlan values other globalVersion nullConstant plan := by
  have hsame : ∀ sub ∈ plan.subplans, ∀ plan' ∈ tryOptimize globalVersion sub,
      plan'.result (planMeaning values other) = sub.result (planMeaning values other) := by
    intro sub hsub plan' htry
    refine result_tryOptimize htry fun q hq op hop out => ?_
    exact (h sub hsub q hq (Option.isSome_iff_exists.mpr ⟨op, hop⟩)).produces_iff hop out
  refine ⟨?_, optimizeChildren_snd plan, optimize_eq_self nullConstant,
    optimize_eq_self nullConstant (tryOptimize_optimize nullConstant plan)⟩
  rw [optimize_eq]
  split_ifs
  · rw [PlanTree.result_mergeProjections]
    exact result_optimizeChildren plan hsame
  · exact result_optimizeChildren plan hsame

end Result

/-! ## A union of two scans -/

/-- What the children produce, one after the other. -/
def unionAll (_ : Unit) (children : List (PlanResult (Option Nat))) : PlanResult (Option Nat) where
  columnBindings := (children.head?.map PlanResult.columnBindings).getD []
  produces out := ∃ outs : List (List (List (Option Nat))),
    List.Forall₂ (fun child out => child.produces out) children outs ∧ out = outs.flatten

/-- The nearest two rows, and their embeddings once more. -/
def threeRowsUnion : LogicalPlan (Option Nat) Nat Nat Unit :=
  let scan := .operator .other (.topN 2 0 [(threeRowsScan 2 0).order])
    [.projection 1 (threeRowsScan 2 0).expressions
      (.operator (.get "seq_scan") (.get (threeRowsScan 2 0).get) [])]
  .operator .other (.other ()) [scan, .projection 2 [.var ⟨1, 0⟩, .var ⟨1, 0⟩] scan]

theorem optimize_preserves_threeRowsUnion :
    OptimizesPlan numbers unionAll true (.constant none) threeRowsUnion := by
  refine optimize_preserves (.constant none) fun sub hsub q hq _ => ?_
  suffices h : q = threeRowsScan 2 0 by
    rw [h]
    exact ⟨threeRowsScan_bound 2 0, threeRowsScan_exactSearch 2 0,
      Or.inr (Or.inl ⟨rfl, Or.inl (by decide)⟩)⟩
  simp only [threeRowsUnion, PlanTree.subplans, PlanTree.subplansList, List.mem_cons,
    List.mem_append, List.not_mem_nil, or_false] at hsub
  rcases hsub with rfl | (rfl | rfl | rfl) | rfl | rfl | rfl | rfl
  · cases hq
  · exact (Option.some.inj hq).symm
  · cases hq
  · cases hq
  · cases hq
  · exact (Option.some.inj hq).symm
  · cases hq
  · cases hq

end PDXearchIndexScanOptimizer

end Plans

end PDXearch
