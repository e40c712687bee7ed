import PDXearch.Index.FaithfulCopy
import PDXearch.Kernel.FilteredSearch
import PDXearch.Create.DataChunk

/-!
# The predicate evaluators

`CreatePredicateEvaluatorForRowGroup` and `CreatePredicateEvaluator` turn the row ids that pass a
filter into selection vectors and counts, by looking up every row id in the mapping. A row whose
embedding is NULL is not in the index, and what the mapping has for it is the default entry, slot 0
of cluster 0. So a filtered search returns rows of the filter only, exactly when the filter emits
indexed rows only and these keep their row ids in the 32 bits of `Cluster::indices`.
-/

namespace PDXearch

open Lib ExactFloat PriorityQueue

/-- The body of the loops: the row's cluster counts one more passing tuple, the bit of its slot is
set. -/
def PredicateEvaluator.select (clusterOffsets : Nat → Nat) (slot : RowIdClusterMapping)
    (evaluator : PredicateEvaluator) : PredicateEvaluator :=
  { evaluator with
    nPassingTuples := Function.update evaluator.nPassingTuples slot.clusterId
      (evaluator.nPassingTuples slot.clusterId + 1)
    selectionVector := Function.update evaluator.selectionVector
      (clusterOffsets slot.clusterId + slot.indexInCluster) true }

section Evaluators

variable {K E D : Type}

/-- `CreatePredicateEvaluatorForRowGroup` -/
def createPredicateEvaluatorForRowGroup (passingRowIds : List Nat) (rowGroup : PDXRowGroup K E D) :
    PredicateEvaluator :=
  passingRowIds.foldl (fun evaluator rowId =>
    evaluator.select rowGroup.searcher.clusterOffsets (rowGroup.slotOf rowId))
    (PredicateEvaluator.new rowGroup.searcher.pdxData.numClusters)

/-- `CreatePredicateEvaluator` of the global wrapper, which has a searcher after its set-up. -/
def PDXearchWrapperGlobal.createPredicateEvaluator (w : PDXearchWrapperGlobal K E D)
    (searcher : Searcher K E D) (rowIdVectors : List (DataVector Nat × Nat)) : PredicateEvaluator :=
  rowIdVectors.foldl (fun evaluator (rowIdVector, vectorSize) =>
    let flat := rowIdVector.flatten
    (List.range vectorSize).foldl (fun evaluator i =>
      if flat.rowIsValid i then
        evaluator.select searcher.clusterOffsets (w.rowIdClusterMapping (flat.data i))
      else evaluator) evaluator)
    (PredicateEvaluator.new w.numClusters)

/-- The valid row ids of vectors, in order. -/
def emittedRowIds (rowIdVectors : List (DataVector Nat × Nat)) : List Nat :=
  rowIdVectors.flatMap fun (rowIdVector, vectorSize) =>
    ((List.range vectorSize).filter rowIdVector.rowIsValid).map rowIdVector.get

/-- The evaluator that a list of slots gives. -/
def evaluatorOf (clusterOffsets : Nat → Nat) (numClusters : Nat)
    (slots : List RowIdClusterMapping) : PredicateEvaluator :=
  slots.foldl (fun evaluator slot => evaluator.select clusterOffsets slot)
    (PredicateEvaluator.new numClusters)

theorem createPredicateEvaluatorForRowGroup_eq (passingRowIds : List Nat)
    (rowGroup : PDXRowGroup K E D) :
    createPredicateEvaluatorForRowGroup passingRowIds rowGroup =
      evaluatorOf rowGroup.searcher.clusterOffsets rowGroup.searcher.pdxData.numClusters
        (passingRowIds.map rowGroup.slotOf) := by
  rw [evaluatorOf, List.foldl_map]
  rfl

theorem createPredicateEvaluator_eq (w : PDXearchWrapperGlobal K E D) (searcher : Searcher K E D)
    (rowIdVectors : List (DataVector Nat × Nat)) :
    w.createPredicateEvaluator searcher rowIdVectors =
      evaluatorOf searcher.clusterOffsets w.numClusters
        ((emittedRowIds rowIdVectors).map w.rowIdClusterMapping) := by
  rw [evaluatorOf, List.foldl_map, emittedRowIds, List.foldl_flatMap]
  unfold PDXearchWrapperGlobal.createPredicateEvaluator
  congr 1
  funext evaluator ⟨rowIdVector, vectorSize⟩
  rw [List.foldl_map, List.foldl_filter]
  rfl

end Evaluators

section EvaluatorOf

variable {clusterOffsets : Nat → Nat} {numClusters : Nat}

theorem selectionVector_evaluatorOf (slots : List RowIdClusterMapping) (x : Nat) :
    (evaluatorOf clusterOffsets numClusters slots).selectionVector x = true ↔
      ∃ slot ∈ slots, clusterOffsets slot.clusterId + slot.indexInCluster = x := by
  induction slots using List.reverseRecOn with
  | nil => simp [evaluatorOf, PredicateEvaluator.new]
  | append_singleton slots slot ih =>
    rw [evaluatorOf, List.foldl_append]
    change Function.update (evaluatorOf clusterOffsets numClusters slots).selectionVector _ true x =
      true ↔ _
    by_cases hx : x = clusterOffsets slot.clusterId + slot.indexInCluster
    · subst hx
      simp
    · rw [Function.update_of_ne hx, ih]
      simp only [List.mem_append, List.mem_singleton]
      constructor
      · rintro ⟨slot', hmem, heq⟩
        exact ⟨slot', Or.inl hmem, heq⟩
      · rintro ⟨slot', hmem | rfl, heq⟩
        · exact ⟨slot', hmem, heq⟩
        · exact absurd heq.symm hx

theorem nPassingTuples_evaluatorOf (slots : List RowIdClusterMapping) (c : Nat) :
    (evaluatorOf clusterOffsets numClusters slots).nPassingTuples c =
      (slots.filter fun slot => slot.clusterId = c).length := by
  induction slots using List.reverseRecOn with
  | nil => rfl
  | append_singleton slots slot ih =>
    rw [evaluatorOf, List.foldl_append, List.filter_append, List.length_append]
    change Function.update (evaluatorOf clusterOffsets numClusters slots).nPassingTuples
      slot.clusterId ((evaluatorOf clusterOffsets numClusters slots).nPassingTuples slot.clusterId
        + 1) c = _
    by_cases hc : slot.clusterId = c
    · subst hc
      simp [ih]
    · rw [Function.update_of_ne (Ne.symm hc), ih]
      simp [hc]

end EvaluatorOf

/-! ## The slots of the indexed rows -/

variable {K E D : Type} [Zero E]

/-- Slot `p` of cluster `c` has the row `slotRow c p`, one of the `n` indexed ones, and `slotOf` finds
every indexed row. -/
structure RowsInSlots (n : Nat) (rowIds : Nat → Nat) (slotRow : Nat → Nat → Nat)
    (slotOf : Nat → RowIdClusterMapping) (S : Searcher K E D) : Prop where
  indexed : ∀ c p, IsSlot S.pdxData c p → ∃ e < n, rowIds e = slotRow c p
  exists_slot : ∀ e < n, ∃ c p, IsSlot S.pdxData c p ∧ slotRow c p = rowIds e
  slotOf_slotRow : ∀ c p, IsSlot S.pdxData c p → slotOf (slotRow c p) = ⟨c, p⟩
  indices : ∀ c p, IsSlot S.pdxData c p → (S.pdxData.cluster c).indices p = slotRow c p % 2 ^ 32
  clusterId_lt : ∀ r, 0 < S.pdxData.numClusters → (slotOf r).clusterId < S.pdxData.numClusters
  offset_inj : ∀ c p c' p', IsSlot S.pdxData c p → IsSlot S.pdxData c' p' →
    S.clusterOffsets c + p = S.clusterOffsets c' + p' → c = c' ∧ p = p'

theorem BuiltFrom.rowsInSlots {b : BuildInput K E D} {S : Searcher K E D} {n : Nat} {f : Nat → Nat}
    (hS : BuiltFrom b S) (ha : ∀ c, b.assignments c = (List.range n).filter fun e => f e = c)
    (hf : ∀ e < n, f e < b.numClusters)
    (hinj : ∀ e < n, ∀ e' < n, b.mappingIdx (b.rowIds e) = b.mappingIdx (b.rowIds e') → e = e') :
    RowsInSlots n b.rowIds (fun c p => b.rowIds (embeddingAt b.assignments c p))
      (fun r => b.build.mapping (b.mappingIdx r)) S where
  indexed c p hslot := ⟨_, (hS.embeddingAt_slot ha hslot).1, rfl⟩
  exists_slot e he := by
    obtain ⟨p, hslot, hat, -⟩ := hS.slot_of_row ha hf hinj he
    exact ⟨f e, p, hslot, congrArg b.rowIds hat⟩
  slotOf_slotRow c p hslot :=
    BuildInput.mapping_build ha hinj (hS.numClusters ▸ hslot.1) (hS.lt_length hslot)
  indices c p hslot := hS.indices_eq hslot
  clusterId_lt r hpos := by
    by_cases hr : ∃ e < n, b.mappingIdx (b.rowIds e) = b.mappingIdx r
    · obtain ⟨e, he, heq⟩ := hr
      obtain ⟨p, hslot, -, hmapping⟩ := hS.slot_of_row ha hf hinj he
      rw [← heq, hmapping]
      exact hslot.1
    · have hdefault := BuildInput.mapping_build_default ha (x := b.mappingIdx r)
        fun e he heq => hr ⟨e, he, heq⟩
      rw [hdefault]
      exact hpos
  offset_inj c p c' p' hslot hslot' heq := by
    have hslots : ((c, p) : Nat × Nat) = (c', p') := (hS.bijOn ha hf).injOn hslot hslot' heq
    exact Prod.mk.inj hslots

/-! ## Soundness -/

variable [Field K] [LinearOrder K]

/-- What a filtered search with the row ids `passing` relies on: a bit is set only for a slot whose
row is in the list, the passing tuples of a cluster are the set bits of its slice, and what may be
merged is in the list. -/
structure FilteredSearchSound (S : Searcher K E D) (slotRow : Nat → Nat → Nat)
    (evaluator : PredicateEvaluator) (Merges : KNNCandidate K → Prop) (passing : List Nat) :
    Prop where
  bits : ∀ x, evaluator.selectionVector x = true → ∃ c p, IsSlot S.pdxData c p ∧
    S.clusterOffsets c + p = x ∧ slotRow c p ∈ passing
  counts : S.Counts evaluator
  merged : ∀ x, Merges x → x.index ∈ passing

/-- Every row id in the list is that of an indexed row, and the list has it under the 32 bits that
`Cluster::indices` keeps of it. -/
def AllIndexed (n : Nat) (rowIds : Nat → Nat) (passing : List Nat) : Prop :=
  ∀ r ∈ passing, (∃ e < n, rowIds e = r) ∧ r % 2 ^ 32 ∈ passing

namespace RowsInSlots

variable {S : Searcher K E D} {n : Nat} {rowIds : Nat → Nat} {slotRow : Nat → Nat → Nat}
  {slotOf : Nat → RowIdClusterMapping} {passing : List Nat} {numClusters : Nat}

omit [Field K] [LinearOrder K] in
/-- Of an indexed row the bit tells whether it is in the list. -/
theorem selectionVector_iff (h : RowsInSlots n rowIds slotRow slotOf S)
    (hindexed : ∀ r ∈ passing, ∃ e < n, rowIds e = r) {c p : Nat} (hslot : IsSlot S.pdxData c p) :
    (evaluatorOf S.clusterOffsets numClusters (passing.map slotOf)).selectionVector
      (S.clusterOffsets c + p) = true ↔ slotRow c p ∈ passing := by
  rw [selectionVector_evaluatorOf]
  constructor
  · rintro ⟨slot, hmem, heq⟩
    obtain ⟨r, hr, rfl⟩ := List.mem_map.mp hmem
    obtain ⟨e, he, rfl⟩ := hindexed r hr
    obtain ⟨c', p', hslot', hrow⟩ := h.exists_slot e he
    rw [← hrow, h.slotOf_slotRow c' p' hslot'] at heq
    obtain ⟨rfl, rfl⟩ := h.offset_inj c' p' c p hslot' hslot heq
    exact hrow ▸ hr
  · intro hmem
    exact ⟨_, List.mem_map.mpr ⟨_, hmem, rfl⟩, by rw [h.slotOf_slotRow c p hslot]⟩

omit [Zero E] [Field K] [LinearOrder K] in
theorem nPassingTuples_eq (slotOf : Nat → RowIdClusterMapping) (c : Nat) :
    (evaluatorOf S.clusterOffsets numClusters (passing.map slotOf)).nPassingTuples c =
      (passing.filter fun r => (slotOf r).clusterId = c).length := by
  rw [nPassingTuples_evaluatorOf, List.filter_map, List.length_map]
  rfl

omit [Field K] [LinearOrder K] in
/-- The rows of a cluster's slots that are in the list are the rows of the list that are in the
cluster. -/
theorem counts_of_indexed (h : RowsInSlots n rowIds slotRow slotOf S) (numClusters : Nat)
    (hnodup : passing.Nodup)
    (hindexed : ∀ r ∈ passing, ∃ e < n, rowIds e = r) :
    S.Counts (evaluatorOf S.clusterOffsets numClusters (passing.map slotOf)) := by
  intro c hc
  have hbit : ∀ p, p ∈ Searcher.selectedBy (S.selection (evaluatorOf S.clusterOffsets numClusters
      (passing.map slotOf)) c) (S.pdxData.cluster c).numEmbeddings ↔
      IsSlot S.pdxData c p ∧ slotRow c p ∈ passing := by
    intro p
    rw [Searcher.selectedBy, List.mem_filter, List.mem_range]
    constructor
    · rintro ⟨hp, hsel⟩
      exact ⟨⟨hc, hp⟩, (h.selectionVector_iff hindexed ⟨hc, hp⟩).mp hsel⟩
    · rintro ⟨hslot, hmem⟩
      exact ⟨hslot.2, (h.selectionVector_iff hindexed hslot).mpr hmem⟩
  refine (nPassingTuples_eq slotOf c).trans ((List.Perm.length_eq ?_).trans
    (List.length_map (slotRow c)))
  refine (List.perm_ext_iff_of_nodup (hnodup.filter _) ?_).mpr fun r => ?_
  · refine (List.nodup_map_iff_inj_on (List.nodup_range.filter _)).mpr fun p hp p' hp' heq => ?_
    have hslots := congrArg slotOf heq
    rw [h.slotOf_slotRow c p ((hbit p).mp hp).1, h.slotOf_slotRow c p' ((hbit p').mp hp').1] at hslots
    exact (RowIdClusterMapping.mk.inj hslots).2
  · rw [List.mem_filter, List.mem_map]
    constructor
    · rintro ⟨hr, hcluster⟩
      obtain ⟨e, he, rfl⟩ := hindexed r hr
      obtain ⟨c', p, hslot, hrow⟩ := h.exists_slot e he
      rw [← hrow, h.slotOf_slotRow c' p hslot] at hcluster
      obtain rfl : c' = c := by simpa using hcluster
      exact ⟨p, (hbit p).mpr ⟨hslot, hrow ▸ hr⟩, hrow⟩
    · rintro ⟨p, hp, rfl⟩
      obtain ⟨hslot, hmem⟩ := (hbit p).mp hp
      exact ⟨hmem, by simp [h.slotOf_slotRow c p hslot]⟩

omit [Field K] [LinearOrder K] in
/-- If bits and counts are right, then as many rows are selected as were emitted, and only indexed
rows are selected. -/
theorem indexed_of_sound (h : RowsInSlots n rowIds slotRow slotOf S)
    {Merges : KNNCandidate K → Prop} (hsound : FilteredSearchSound S slotRow
      (evaluatorOf S.clusterOffsets numClusters (passing.map slotOf)) Merges passing) :
    ∀ r ∈ passing, ∃ c p, IsSlot S.pdxData c p ∧ slotRow c p = r ∧
      (evaluatorOf S.clusterOffsets numClusters (passing.map slotOf)).selectionVector
        (S.clusterOffsets c + p) = true := by
  intro r hr
  set evaluator := evaluatorOf S.clusterOffsets numClusters (passing.map slotOf)
  have hpos : 0 < S.pdxData.numClusters := by
    obtain ⟨c, p, hslot, -⟩ := hsound.bits _ ((selectionVector_evaluatorOf _ _).mpr
      ⟨slotOf r, List.mem_map_of_mem hr, rfl⟩)
    exact Nat.zero_lt_of_lt hslot.1
  set selected : List Nat := (List.range S.pdxData.numClusters).flatMap fun c =>
    (Searcher.selectedBy (S.selection evaluator c) (S.pdxData.cluster c).numEmbeddings).map (slotRow c)
    with hselected
  have hslot : ∀ c < S.pdxData.numClusters, ∀ p ∈ Searcher.selectedBy (S.selection evaluator c)
      (S.pdxData.cluster c).numEmbeddings, IsSlot S.pdxData c p ∧ slotRow c p ∈ passing := by
    intro c hc p hp
    obtain ⟨hlt, hsel⟩ := List.mem_filter.mp hp
    have hslot : IsSlot S.pdxData c p := ⟨hc, List.mem_range.mp hlt⟩
    obtain ⟨c', p', hslot', heq, hmem⟩ := hsound.bits _ hsel
    obtain ⟨rfl, rfl⟩ := h.offset_inj c' p' c p hslot' hslot heq
    exact ⟨hslot, hmem⟩
  have hnodup : selected.Nodup := by
    refine nodup_flatMap_map List.nodup_range (fun _ _ => List.nodup_range.filter _)
      fun c hc p hp c' hc' p' hp' heq => ?_
    have hslots := congrArg slotOf heq
    rw [h.slotOf_slotRow c p (hslot c (List.mem_range.mp hc) p hp).1,
      h.slotOf_slotRow c' p' (hslot c' (List.mem_range.mp hc') p' hp').1] at hslots
    exact RowIdClusterMapping.mk.inj hslots
  have hsubset : selected ⊆ passing := by
    intro x hx
    obtain ⟨c, hc, hx⟩ := List.mem_flatMap.mp hx
    obtain ⟨p, hp, rfl⟩ := List.mem_map.mp hx
    exact (hslot c (List.mem_range.mp hc) p hp).2
  have hlength : selected.length = passing.length := by
    have hfibres := offset_fibres passing (f := fun r => (slotOf r).clusterId)
      fun r _ => h.clusterId_lt r hpos
    rw [← hfibres, hselected, List.length_flatMap]
    refine congrArg List.sum (List.map_congr_left fun c hc => ?_)
    rw [List.length_map, ← hsound.counts c (List.mem_range.mp hc)]
    exact nPassingTuples_eq slotOf c
  obtain ⟨c, hc, hmem⟩ := List.mem_flatMap.mp
    ((List.subperm_of_subset hnodup hsubset).perm_of_length_le hlength.ge |>.mem_iff.mpr hr)
  obtain ⟨p, hp, rfl⟩ := List.mem_map.mp hmem
  exact ⟨c, p, (hslot c (List.mem_range.mp hc) p hp).1, rfl, (List.mem_filter.mp hp).2⟩

omit [Field K] [LinearOrder K] in
theorem sound_iff (h : RowsInSlots n rowIds slotRow slotOf S) (numClusters : Nat)
    (hnodup : passing.Nodup)
    {Merges : KNNCandidate K → Prop}
    (hmerges : S.Counts (evaluatorOf S.clusterOffsets numClusters (passing.map slotOf)) → ∀ y,
      (∃ x, Merges x ∧ x.index = y) ↔
        S.SelectsIndex (evaluatorOf S.clusterOffsets numClusters (passing.map slotOf)) y) :
    FilteredSearchSound S slotRow (evaluatorOf S.clusterOffsets numClusters (passing.map slotOf))
        Merges passing ↔
      AllIndexed n rowIds passing := by
  constructor
  · intro hsound r hr
    obtain ⟨c, p, hslot, rfl, hbit⟩ := h.indexed_of_sound hsound r hr
    refine ⟨h.indexed c p hslot, ?_⟩
    obtain ⟨x, hx, hindex⟩ := (hmerges hsound.counts _).mpr ⟨c, p, hslot, hbit, rfl⟩
    rw [← h.indices c p hslot, ← hindex]
    exact hsound.merged x hx
  · intro hall
    have hindexed : ∀ r ∈ passing, ∃ e < n, rowIds e = r := fun r hr => (hall r hr).1
    have hcounts := h.counts_of_indexed numClusters hnodup hindexed
    refine ⟨fun x hx => ?_, hcounts, fun x hx => ?_⟩
    · obtain ⟨slot, hmem, heq⟩ := (selectionVector_evaluatorOf _ _).mp hx
      obtain ⟨r, hr, rfl⟩ := List.mem_map.mp hmem
      obtain ⟨e, he, rfl⟩ := hindexed r hr
      obtain ⟨c, p, hslot, hrow⟩ := h.exists_slot e he
      rw [← hrow, h.slotOf_slotRow c p hslot] at heq
      exact ⟨c, p, hslot, heq, hrow ▸ hr⟩
    · obtain ⟨c, p, hslot, hbit, hindex⟩ := (hmerges hcounts x.index).mp ⟨x, hx, rfl⟩
      rw [← hindex, h.indices c p hslot]
      exact (hall _ ((h.selectionVector_iff hindexed hslot).mp hbit)).2

end RowsInSlots

/-! ## The wrappers -/

section Wrappers

variable [LinearOrder D]

/-- The row whose embedding `SetUpIndexForRowGroup` and `SetUpGlobalIndex` store in a slot. -/
def rowOfSlot (ctx : BuildContext K E) (numClusters : Nat) (rowIds : Nat → Nat)
    (embeddings : Nat → K) (n c p : Nat) : Nat :=
  rowIds (embeddingAt (computeKMeans ctx.kmeans embeddings n numClusters).assignments c p)

/-- `FilteredSearchRowGroup` is sound on the row group that was set up with the given rows. -/
def PDXearchWrapperParallel.Sound (w : PDXearchWrapperParallel K E D) (ctx : BuildContext K E)
    (Q : QuantizationOf K E D) (rowIds : Nat → Nat) (embeddings : Nat → K) (n : Nat)
    (passing : List Nat) : Prop :=
  let rowGroup := w.builtRowGroup ctx Q rowIds embeddings n
  let evaluator := createPredicateEvaluatorForRowGroup passing rowGroup
  FilteredSearchSound rowGroup.searcher
    (rowOfSlot ctx w.numClustersPerRowGroup rowIds embeddings n) evaluator
    (rowGroup.searcher.FilteredSearchMerges evaluator) passing

/-- `FilteredSearch` of the global wrapper is sound on the index that was set up with the given
rows. -/
def PDXearchWrapperGlobal.Sound (w : PDXearchWrapperGlobal K E D) (ctx : BuildContext K E)
    (Q : QuantizationOf K E D) (rowIds : Nat → Nat) (embeddings : Nat → K) (n : Nat) (H : Type)
    [Heap H K] (rowIdVectors : List (DataVector Nat × Nat)) : Prop :=
  let built := w.setUpGlobalIndex ctx Q rowIds embeddings n
  ∀ searcher ∈ built.searcher,
    let evaluator := built.createPredicateEvaluator searcher rowIdVectors
    FilteredSearchSound searcher (rowOfSlot ctx w.numClusters rowIds embeddings n) evaluator
      (searcher.FilteredSearchGlobalMerges H evaluator) (emittedRowIds rowIdVectors)

variable {M : Type} [AddCommMonoid M] {ctx : BuildContext K E} {Q : QuantizationOf K E D}
  {rowIds : Nat → Nat} {embeddings : Nat → K} {n : Nat}

omit [LinearOrder D] [LinearOrder K] in
theorem rowsInSlots_builtSearcher (w : PDXearchWrapper K) {numClusters : Nat}
    (mappingIdx : Nat → Nat)
    (hk : ctx.kmeans.InRange embeddings n numClusters)
    (hinj : ∀ e < n, ∀ e' < n, mappingIdx (rowIds e) = mappingIdx (rowIds e') → e = e') :
    RowsInSlots n rowIds (rowOfSlot ctx numClusters rowIds embeddings n)
      (fun r => (w.buildInput ctx Q numClusters mappingIdx rowIds embeddings n).build.mapping
        (mappingIdx r))
      (w.builtSearcher ctx (w.buildInput ctx Q numClusters mappingIdx rowIds embeddings n) n) :=
  (builtFrom_buildInput w numClusters mappingIdx).rowsInSlots
    (fun c => computeKMeans_assignments ctx.kmeans embeddings n numClusters c)
    (fun _ he => clusterOf_lt hk he) hinj

theorem PDXearchWrapperParallel.sound_iff (w : PDXearchWrapperParallel K E D) {rowGroupId : Nat}
    (hM : Measured (w.builtRowGroup ctx Q rowIds embeddings n).searcher.pdxData M)
    (hdistinct : ∀ e < n, ∀ e' < n, rowIds e = rowIds e' → e = e')
    (hgroup : ∀ e < n, getRowGroupId (rowIds e) = rowGroupId)
    (hk : ctx.kmeans.InRange embeddings n w.numClustersPerRowGroup) {passing : List Nat}
    (hnodup : passing.Nodup) :
    w.Sound ctx Q rowIds embeddings n passing ↔ AllIndexed n rowIds passing := by
  unfold Sound
  simp only
  rw [createPredicateEvaluatorForRowGroup_eq]
  exact RowsInSlots.sound_iff (rowsInSlots_builtSearcher w.toPDXearchWrapper (· % defaultRowGroupSize)
    hk (mod_inj_of_getRowGroupId hdistinct hgroup)) _ hnodup
    fun hcounts y => Searcher.filteredSearchMerges_iff hM hcounts y

theorem PDXearchWrapperGlobal.sound_iff (w : PDXearchWrapperGlobal K E D)
    (hM : ∀ searcher ∈ (w.setUpGlobalIndex ctx Q rowIds embeddings n).searcher,
      Measured searcher.pdxData M)
    (hdistinct : ∀ e < n, ∀ e' < n, rowIds e = rowIds e' → e = e')
    (hk : ctx.kmeans.InRange embeddings n w.numClusters) (H : Type) [Heap H K]
    {rowIdVectors : List (DataVector Nat × Nat)} (hnodup : (emittedRowIds rowIdVectors).Nodup) :
    w.Sound ctx Q rowIds embeddings n H rowIdVectors ↔
      AllIndexed n rowIds (emittedRowIds rowIdVectors) := by
  have hiff := RowsInSlots.sound_iff
    (rowsInSlots_builtSearcher (Q := Q) w.toPDXearchWrapper id hk hdistinct) w.numClusters hnodup
    fun hcounts y => Searcher.filteredSearchGlobalMerges_iff (hM _ rfl) hcounts H y
  rw [← hiff]
  unfold Sound
  simp only [createPredicateEvaluator_eq]
  exact ⟨fun h => h _ rfl, fun h searcher hsearcher => by cases hsearcher; exact h⟩

end Wrappers

section Main

variable {K : Type} [Field K] [LinearOrder K] [FloorRing K]

/-- Filtered search on a row group and on a global index, F32 and U8. -/
theorem filteredSearch_sound_iff (w : PDXearchWrapperParallel K K (ExactFloat K))
    (w' : PDXearchWrapperParallel K UInt8 Nat) (g : PDXearchWrapperGlobal K K (ExactFloat K))
    (g' : PDXearchWrapperGlobal K UInt8 Nat) (ctx : BuildContext K K) (ctx' : BuildContext K UInt8)
    (maxValue : UInt8) (hdims : w'.numDimensions ≤ pdxMaxDims)
    (hdims' : g'.numDimensions ≤ pdxMaxDims) (rowIds : Nat → Nat) (embeddings : Nat → K) (n : Nat)
    (hdistinct : ∀ e < n, ∀ e' < n, rowIds e = rowIds e' → e = e')
    (hw : ctx.kmeans.InRange embeddings n w.numClustersPerRowGroup)
    (hw' : ctx'.kmeans.InRange embeddings n w'.numClustersPerRowGroup)
    (hg : ctx.kmeans.InRange embeddings n g.numClusters)
    (hg' : ctx'.kmeans.InRange embeddings n g'.numClusters) (H : Type) [Heap H K] :
    (∀ rowGroupId, (∀ e < n, getRowGroupId (rowIds e) = rowGroupId) →
      ∀ passing : List Nat, passing.Nodup →
        (w.Sound ctx quantizationF32 rowIds embeddings n passing ↔ AllIndexed n rowIds passing) ∧
        (w'.Sound ctx' (quantizationU8 maxValue) rowIds embeddings n passing ↔
          AllIndexed n rowIds passing)) ∧
    ∀ rowIdVectors, (emittedRowIds rowIdVectors).Nodup →
      (g.Sound ctx quantizationF32 rowIds embeddings n H rowIdVectors ↔
        AllIndexed n rowIds (emittedRowIds rowIdVectors)) ∧
      (g'.Sound ctx' (quantizationU8 maxValue) rowIds embeddings n H rowIdVectors ↔
        AllIndexed n rowIds (emittedRowIds rowIdVectors)) := by
  refine ⟨fun rowGroupId hgroup passing hnodup => ⟨?_, ?_⟩, fun rowIdVectors hnodup => ⟨?_, ?_⟩⟩
  · exact w.sound_iff (M := K) (measured_f32 rfl) hdistinct hgroup hw hnodup
  · exact w'.sound_iff (M := Nat) (measured_u8 rfl hdims) hdistinct hgroup hw' hnodup
  · refine g.sound_iff (M := K) (fun searcher hsearcher => ?_) hdistinct hg H hnodup
    cases hsearcher
    exact measured_f32 rfl
  · refine g'.sound_iff (M := Nat) (fun searcher hsearcher => ?_) hdistinct hg' H hnodup
    cases hsearcher
    exact measured_u8 rfl hdims'

/-- Rows 1, 3, 5 and 7 in two clusters, and a filter that lets two of them through. -/
theorem filteredSearch_sound_iff_oddRows :
    PDXearchWrapperParallel.Sound (⟨⟨2, false, 0, fun _ => 0⟩, 2, 1, fun _ => none⟩ :
        PDXearchWrapperParallel Rat UInt8 Nat) (.roundRobin Rat UInt8) (quantizationU8 255)
        (fun e => 2 * e + 1) (fun i => i) 4 [7, 3] ∧
      PDXearchWrapperGlobal.Sound (⟨⟨2, false, 0, fun _ => 0⟩, 2, 4, fun _ => ⟨0, 0⟩, none⟩ :
        PDXearchWrapperGlobal Rat Rat (ExactFloat Rat)) (.roundRobin Rat Rat) quantizationF32
        (fun e => 2 * e + 1) (fun i => i) 4 (SortedQueue (KNNCandidate.distance (K := Rat)))
        [(.flat ⟨fun _ => 7, fun i => i = 0⟩, 2), (.flat ⟨fun _ => 3, fun _ => true⟩, 1)] := by
  have hiff := filteredSearch_sound_iff ⟨⟨2, false, 0, fun _ => 0⟩, 2, 1, fun _ => none⟩
    ⟨⟨2, false, 0, fun _ => 0⟩, 2, 1, fun _ => none⟩
    ⟨⟨2, false, 0, fun _ => 0⟩, 2, 4, fun _ => ⟨0, 0⟩, none⟩
    ⟨⟨2, false, 0, fun _ => 0⟩, 2, 4, fun _ => ⟨0, 0⟩, none⟩ (.roundRobin Rat Rat)
    (.roundRobin Rat UInt8) 255 (by decide) (by decide) (fun e => 2 * e + 1) (fun i => (i : Rat)) 4
    (by decide) (BuildContext.roundRobin_inRange _ 4 (by decide))
    (BuildContext.roundRobin_inRange _ 4 (by decide))
    (BuildContext.roundRobin_inRange _ 4 (by decide))
    (BuildContext.roundRobin_inRange _ 4 (by decide))
    (SortedQueue (KNNCandidate.distance (K := Rat)))
  have hindexed : AllIndexed 4 (fun e => 2 * e + 1) [7, 3] := by
    unfold AllIndexed
    decide
  exact ⟨(hiff.1 0 (by decide) [7, 3] (by decide)).2.mpr hindexed,
    (hiff.2 [(.flat ⟨fun _ => 7, fun i => i = 0⟩, 2), (.flat ⟨fun _ => 3, fun _ => true⟩, 1)]
      (by decide)).1.mpr hindexed⟩

/-- Row 0 has no embedding and is not in the index, row 1 is. A filter that lets row 0 through only
selects row 1. -/
theorem filteredSearch_unsound_null :
    ¬ PDXearchWrapperParallel.Sound (⟨⟨2, false, 0, fun _ => 0⟩, 1, 1, fun _ => none⟩ :
        PDXearchWrapperParallel Rat Rat (ExactFloat Rat)) (.roundRobin Rat Rat) quantizationF32
        (fun e => e + 1) (fun i => i) 1 [0] := by
  intro h
  obtain ⟨c, p, -, -, hmem⟩ := h.bits 0 rfl
  exact Nat.succ_ne_zero _ (List.mem_singleton.mp hmem)

end Main

end PDXearch
