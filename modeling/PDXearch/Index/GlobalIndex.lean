import PDXearch.Create.ClusterCounts
import PDXearch.Index.Evaluator
import PDXearch.Kernel.GlobalAccounts

/-!
# The global index

`PDXearchWrapperGlobal` from its constructor to its searches. What a search returns are row ids of
the visited clusters: of all rows that the index was set up with, or of those that pass a filter. The
filter's row ids are handed over in vectors, and in which vectors and in which order is of no
importance.
-/

namespace PDXearch

open Lib ExactFloat

/-- What a search is run with: the sorting of the library, the square root, and what the arrays hold
that it allocates. -/
structure SearchContext (K D : Type) where
  std : StdSort
  sqrt : K → K
  memory : Nat → K
  arrays : ProbeState D

/-- Searchers that differ at most in their pruners and in what queries leave behind. -/
structure Searcher.SameIndex {K E D : Type} (S S' : Searcher K E D) : Prop where
  pdxData_eq : S.pdxData = S'.pdxData
  clusterOffsets_eq : S.clusterOffsets = S'.clusterOffsets

namespace PDXearchWrapperGlobal

section Searches

variable {K E D : Type}

/-- The constructor. -/
def new (base : PDXearchWrapper K) (estimatedCardinality : Nat) : PDXearchWrapperGlobal K E D :=
  { base with
    numClusters := computeNumberOfClusters estimatedCardinality
    totalNumEmbeddings := estimatedCardinality
    rowIdClusterMapping := fun _ => ⟨0, 0⟩
    searcher := none }

variable [Field K] [LinearOrder K] [LinearOrder D] [Zero E] (w : PDXearchWrapperGlobal K E D)
  (H : Type) [Heap H K] (context : SearchContext K D) (queryEmbedding : Nat → K) (limit nProbe : Nat)

/-- `Search`; there is a searcher after the set-up. -/
def search : Option (List Nat) :=
  w.searcher.map fun searcher =>
    ((searcher.setNProbe nProbe).searchGlobal H context.std id context.sqrt context.memory
      queryEmbedding limit context.arrays).map KNNCandidate.index

/-- `FilteredSearch` -/
def filteredSearch (rowIdVectors : List (DataVector Nat × Nat)) : Option (List Nat) :=
  w.searcher.map fun searcher =>
    ((searcher.setNProbe nProbe).filteredSearchGlobal H context.std id context.sqrt context.memory
      queryEmbedding limit (w.createPredicateEvaluator searcher rowIdVectors) context.arrays).map KNNCandidate.index

omit [LinearOrder D] in
/-- The row's vector is in a cluster that a search visits. -/
def isVisited (rowId : Nat) : Bool :=
  w.searcher.any fun searcher => (w.rowIdClusterMapping rowId).clusterId ∈
    (searcher.setNProbe nProbe).visitedClusters context.std
      ((searcher.setNProbe nProbe).globalQuery id context.sqrt context.memory queryEmbedding)

end Searches

/-- The index after `SetUpGlobalIndex` was called with distinct rows, which the clustering library can
deal out. The pruner, and what queries have left behind since, are arbitrary. -/
structure SetUpWith {K E D : Type} [Field K] [Zero E] (w : PDXearchWrapperGlobal K E D)
    (ctx : BuildContext K E) (Q : QuantizationOf K E D) (buffer : EmbeddingBuffer K) : Prop where
  distinct : ∀ e < buffer.count, ∀ e' < buffer.count,
    buffer.rowIds e = buffer.rowIds e' → e = e'
  inRange : ctx.kmeans.InRange buffer.embeddings buffer.count w.numClusters
  mapping_eq : w.rowIdClusterMapping = (w.setUpGlobalIndex ctx Q buffer.rowIds buffer.embeddings
    buffer.count).rowIdClusterMapping
  sameIndex : Option.Rel Searcher.SameIndex w.searcher (w.setUpGlobalIndex ctx Q buffer.rowIds
    buffer.embeddings buffer.count).searcher

theorem setUpWith_setUpGlobalIndex {K E D : Type} [Field K] [Zero E] (w : PDXearchWrapperGlobal K E D)
    {ctx : BuildContext K E} {Q : QuantizationOf K E D} (buffer : EmbeddingBuffer K)
    (hdistinct : ∀ e < buffer.count, ∀ e' < buffer.count,
      buffer.rowIds e = buffer.rowIds e' → e = e')
    (hinRange : ctx.kmeans.InRange buffer.embeddings buffer.count w.numClusters) :
    (w.setUpGlobalIndex ctx Q buffer.rowIds buffer.embeddings buffer.count).SetUpWith ctx Q buffer :=
  ⟨hdistinct, hinRange, rfl, .some ⟨rfl, rfl⟩⟩

end PDXearchWrapperGlobal

/-! ## The vectors of a filter -/

section Vectors

variable {clusterOffsets : Nat → Nat} {numClusters : Nat}

theorem nClusters_evaluatorOf (slots : List RowIdClusterMapping) :
    (evaluatorOf clusterOffsets numClusters slots).nClusters = numClusters := by
  induction slots using List.reverseRecOn with
  | nil => rfl
  | append_singleton slots slot ih =>
    rw [evaluatorOf, List.foldl_append]
    exact ih

/-- The evaluator does not depend on the order of the row ids. -/
theorem evaluatorOf_perm {slots slots' : List RowIdClusterMapping} (h : slots.Perm slots') :
    evaluatorOf clusterOffsets numClusters slots = evaluatorOf clusterOffsets numClusters slots' := by
  have hcounts : (evaluatorOf clusterOffsets numClusters slots).nPassingTuples =
      (evaluatorOf clusterOffsets numClusters slots').nPassingTuples := by
    funext c
    rw [nPassingTuples_evaluatorOf, nPassingTuples_evaluatorOf]
    exact (h.filter _).length_eq
  have hbits : (evaluatorOf clusterOffsets numClusters slots).selectionVector =
      (evaluatorOf clusterOffsets numClusters slots').selectionVector := by
    funext x
    rw [Bool.eq_iff_iff, selectionVector_evaluatorOf, selectionVector_evaluatorOf]
    simp only [h.mem_iff]
  have hclusters : (evaluatorOf clusterOffsets numClusters slots).nClusters =
      (evaluatorOf clusterOffsets numClusters slots').nClusters := by
    rw [nClusters_evaluatorOf, nClusters_evaluatorOf]
  cases hslots : evaluatorOf clusterOffsets numClusters slots
  cases hslots' : evaluatorOf clusterOffsets numClusters slots'
  rw [hslots, hslots'] at hcounts hbits hclusters
  simp only at hcounts hbits hclusters
  rw [hcounts, hbits, hclusters]

/-- Any row ids can be handed over. -/
theorem exists_rowIdVectors (rowIds : List Nat) :
    ∃ rowIdVectors, emittedRowIds rowIdVectors = rowIds := by
  refine ⟨[(.flat ⟨fun i => rowIds.getD i 0, fun _ => true⟩, rowIds.length)], ?_⟩
  have hvalid : (List.range rowIds.length).filter (DataVector.flat
      ⟨fun i => rowIds.getD i 0, fun _ => true⟩).rowIsValid = List.range rowIds.length :=
    List.filter_eq_self.mpr fun _ _ => rfl
  rw [emittedRowIds, List.flatMap_singleton]
  simp only [hvalid]
  exact map_getD_range rowIds fun _ => 0

end Vectors

/-! ## The rows of some clusters -/

section Rows

variable {K E D : Type} [Zero E]

theorem RowsInSlots.of_sameIndex {n : Nat} {rowIds : Nat → Nat} {slotRow : Nat → Nat → Nat}
    {slotOf : Nat → RowIdClusterMapping} {S S' : Searcher K E D}
    (h : RowsInSlots n rowIds slotRow slotOf S') (hsame : S.SameIndex S') :
    RowsInSlots n rowIds slotRow slotOf S where
  indexed := hsame.pdxData_eq ▸ h.indexed
  exists_slot := hsame.pdxData_eq ▸ h.exists_slot
  slotOf_slotRow := hsame.pdxData_eq ▸ h.slotOf_slotRow
  indices := hsame.pdxData_eq ▸ h.indices
  clusterId_lt := hsame.pdxData_eq ▸ h.clusterId_lt
  offset_inj := hsame.pdxData_eq ▸ hsame.clusterOffsets_eq ▸ h.offset_inj

/-- The filters select the rows `selected`. -/
def Searcher.Selects (S : Searcher K E D) (slotRow : Nat → Nat → Nat)
    (filters : Nat → Option Selection) (selected : List Nat) : Prop :=
  ∀ c p, IsSlot S.pdxData c p →
    ((filters c).all (fun selection => selection.selectionVector p) = true ↔ slotRow c p ∈ selected)

namespace RowsInSlots

variable {n : Nat} {rowIds : Nat → Nat} {slotRow : Nat → Nat → Nat}
  {slotOf : Nat → RowIdClusterMapping} {S : Searcher K E D} {filters : Nat → Option Selection}
  {selected clusters : List Nat}

/-- The selected slots of some clusters have the selected rows that are in these clusters. -/
theorem selectedRows_perm (h : RowsInSlots n rowIds slotRow slotOf S)
    (hselects : S.Selects slotRow filters selected) (hnodup : selected.Nodup)
    (hindexed : ∀ r ∈ selected, ∃ e < n, rowIds e = r) (hclusters : clusters.Nodup)
    (hlt : ∀ c ∈ clusters, c < S.pdxData.numClusters) :
    (clusters.flatMap fun c => (DistanceMeasure.selectedSlots S c (filters c)).map (slotRow c)).Perm
      (selected.filter fun r => (slotOf r).clusterId ∈ clusters) := by
  have hslot : ∀ c ∈ clusters, ∀ p, p ∈ DistanceMeasure.selectedSlots S c (filters c) ↔
      IsSlot S.pdxData c p ∧ slotRow c p ∈ selected := by
    intro c hc p
    rw [DistanceMeasure.selectedSlots, List.mem_filter, List.mem_range]
    constructor
    · rintro ⟨hp, hall⟩
      exact ⟨⟨hlt c hc, hp⟩, (hselects c p ⟨hlt c hc, hp⟩).mp hall⟩
    · rintro ⟨hslot, hmem⟩
      exact ⟨hslot.2, (hselects c p hslot).mpr hmem⟩
  refine (List.perm_ext_iff_of_nodup ?_ (hnodup.filter _)).mpr fun r => ?_
  · refine nodup_flatMap_map hclusters (fun _ _ => List.nodup_range.filter _)
      fun c hc p hp c' hc' p' hp' heq => ?_
    have hslots := congrArg slotOf heq
    rw [h.slotOf_slotRow c p ((hslot c hc p).mp hp).1,
      h.slotOf_slotRow c' p' ((hslot c' hc' p').mp hp').1] at hslots
    exact RowIdClusterMapping.mk.inj hslots
  · rw [List.mem_flatMap, List.mem_filter, decide_eq_true_eq]
    constructor
    · rintro ⟨c, hc, hr⟩
      obtain ⟨p, hp, rfl⟩ := List.mem_map.mp hr
      obtain ⟨hslotOf, hmem⟩ := (hslot c hc p).mp hp
      exact ⟨hmem, by rwa [h.slotOf_slotRow c p hslotOf]⟩
    · rintro ⟨hr, hc⟩
      obtain ⟨e, he, rfl⟩ := hindexed r hr
      obtain ⟨c, p, hslotOf, hrow⟩ := h.exists_slot e he
      rw [← hrow, h.slotOf_slotRow c p hslotOf] at hc
      exact ⟨c, hc, List.mem_map.mpr ⟨p, (hslot c hc p).mpr ⟨hslotOf, hrow ▸ hr⟩, hrow⟩⟩

/-- Without a filter all rows are selected. -/
theorem selects_none (h : RowsInSlots n rowIds slotRow slotOf S)
    (hall : ∀ e < n, rowIds e ∈ selected) : S.Selects slotRow (fun _ => none) selected := by
  intro c p hslot
  obtain ⟨e, he, hrow⟩ := h.indexed c p hslot
  exact iff_of_true rfl (hrow ▸ hall e he)

/-- The evaluator of some rows selects them. -/
theorem selects_evaluatorOf (h : RowsInSlots n rowIds slotRow slotOf S)
    (hindexed : ∀ r ∈ selected, ∃ e < n, rowIds e = r) (numClusters : Nat) :
    S.Selects slotRow (fun c => some (S.selection
      (evaluatorOf S.clusterOffsets numClusters (selected.map slotOf)) c)) selected :=
  fun _ _ hslot => h.selectionVector_iff hindexed hslot

end RowsInSlots

variable {M : Type} [AddCommMonoid M]

/-- Candidates of the selected rows of some clusters have the ids of these rows, if these are below
`2 ^ 32`. -/
theorem RowsInSlots.candidates_index {n : Nat} {rowIds : Nat → Nat} {slotRow : Nat → Nat → Nat}
    {slotOf : Nat → RowIdClusterMapping} {S : Searcher K E D} {filters : Nat → Option Selection}
    {selected clusters : List Nat} (h : RowsInSlots n rowIds slotRow slotOf S)
    (μ : DistanceMeasure S M) (hselects : S.Selects slotRow filters selected)
    (hlt32 : ∀ r ∈ selected, r < 2 ^ 32) (hlt : ∀ c ∈ clusters, c < S.pdxData.numClusters) :
    (clusters.flatMap fun c => μ.candidates c (filters c)).map KNNCandidate.index =
      clusters.flatMap fun c => (DistanceMeasure.selectedSlots S c (filters c)).map (slotRow c) := by
  rw [List.map_flatMap]
  refine List.flatMap_congr fun c hc => ?_
  rw [DistanceMeasure.candidates, List.map_map]
  refine List.map_congr_left fun p hp => ?_
  obtain ⟨hp, hall⟩ := List.mem_filter.mp hp
  have hslot : IsSlot S.pdxData c p := ⟨hlt c hc, List.mem_range.mp hp⟩
  exact (h.indices c p hslot).trans
    (Nat.mod_eq_of_lt (hlt32 _ ((hselects c p hslot).mp hall)))

end Rows

/-! ## What the searches return -/

section Results

variable {K E D M : Type} [Zero E] [Field K] [LinearOrder K] [LinearOrder D] [AddCommMonoid M]
  {n : Nat} {rowIds : Nat → Nat} {slotRow : Nat → Nat → Nat} {slotOf : Nat → RowIdClusterMapping}
  {S : Searcher K E D} {selected : List Nat}

omit [Zero E] [LinearOrder D] in
theorem Searcher.nodup_visitedClusters (S : Searcher K E D) (std : StdSort) (query : Nat → K) :
    (S.visitedClusters std query).Nodup := by
  refine List.Nodup.sublist (List.take_sublist _ _) ?_
  exact (getClustersAccessOrderIVF_perm std query _ _).nodup_iff.mpr List.nodup_range

omit [Zero E] [LinearOrder D] in
theorem Searcher.visitedClusters_lt (S : Searcher K E D) (std : StdSort) (query : Nat → K) :
    ∀ c ∈ S.visitedClusters std query, c < S.pdxData.numClusters := fun _ hc =>
  List.mem_range.mp ((getClustersAccessOrderIVF_perm std query _ _).mem_iff.mp
    (List.mem_of_mem_take hc))

/-- The rows that a loop over some clusters finds are among the selected rows of these clusters: as
many as there is room for, or all. -/
theorem RowsInSlots.visitClusters_fills (h : RowsInSlots n rowIds slotRow slotOf S)
    (hM : Measured S.pdxData M) (std : StdSort) {k : Nat} (hk : 0 < k)
    {filters : Nat → Option Selection} (hselects : S.Selects slotRow filters selected)
    (hnodup : selected.Nodup) (hindexed : ∀ r ∈ selected, ∃ e < n, rowIds e = r)
    (hlt32 : ∀ r ∈ selected, r < 2 ^ 32) {skip : Nat → Bool} {clusters : List Nat}
    (hclusters : clusters.Nodup) (hlt : ∀ c ∈ clusters, c < S.pdxData.numClusters)
    (hskip : ∀ c ∈ clusters, skip c → DistanceMeasure.selectedSlots S c (filters c) = [])
    (hcounts : ∀ c ∈ clusters, S.FilterCounts c (filters c)) (query : Nat → E) (s : ProbeState D)
    (H : Type) [Heap H K] :
    Fills (C := Nat) k (selected.filter fun r => (slotOf r).clusterId ∈ clusters) 0
      ((buildResultSetFromHeap (K := K) k (S.visitClusters std k query skip filters clusters
        (PriorityQueue.empty : H) s)).map KNNCandidate.index) := by
  obtain ⟨μ, hμ⟩ := hM (S.withQuery query) rfl
  have hrows : RowsInSlots n rowIds slotRow slotOf (S.withQuery query) := h.of_sameIndex ⟨rfl, rfl⟩
  rw [← Searcher.visitClusters_withQuery S std k query]
  obtain ⟨hfills, -⟩ := Searcher.buildResultSet_fills (S := S.withQuery query) (H := H) hμ std hk
    (fun c hc hskipped => List.map_eq_nil_iff.mpr (hskip c hc hskipped)) hcounts s
  have hindex := hfills.map KNNCandidate.index
  rw [Multiset.map_coe, Multiset.map_coe, hrows.candidates_index μ hselects hlt32 hlt,
    Multiset.coe_eq_coe.mpr
      (hrows.selectedRows_perm hselects hnodup hindexed hclusters hlt)] at hindex
  exact hindex

/-- `SearchGlobal` -/
theorem RowsInSlots.searchGlobal_fills (h : RowsInSlots n rowIds slotRow slotOf S)
    (hM : Measured S.pdxData M) {k : Nat} (hk : 0 < k) (hall : ∀ e < n, rowIds e ∈ selected)
    (hnodup : selected.Nodup) (hindexed : ∀ r ∈ selected, ∃ e < n, rowIds e = r)
    (hlt32 : ∀ r ∈ selected, r < 2 ^ 32) (context : SearchContext K D) (query : Nat → K) (H : Type)
    [Heap H K] :
    Fills (C := Nat) k (selected.filter fun r => (slotOf r).clusterId ∈
        S.visitedClusters context.std (S.globalQuery id context.sqrt context.memory query)) 0
      ((S.searchGlobal H context.std id context.sqrt context.memory query k context.arrays).map
        KNNCandidate.index) := by
  refine h.visitClusters_fills hM context.std hk (h.selects_none hall) hnodup hindexed hlt32
    (S.nodup_visitedClusters _ _) (S.visitedClusters_lt _ _) (fun c _ hskip => ?_)
    (fun c _ => ?_) _ _ H
  · have hempty : (S.pdxData.cluster c).numEmbeddings = 0 := of_decide_eq_true hskip
    rw [DistanceMeasure.selectedSlots, hempty, List.range_zero, List.filter_nil]
  · rintro selection ⟨⟩

/-- `FilteredSearchGlobal`, with the evaluator of the selected rows. -/
theorem RowsInSlots.filteredSearchGlobal_fills (h : RowsInSlots n rowIds slotRow slotOf S)
    (hM : Measured S.pdxData M) {k : Nat} (hk : 0 < k) (hnodup : selected.Nodup)
    (hindexed : ∀ r ∈ selected, ∃ e < n, rowIds e = r) (hlt32 : ∀ r ∈ selected, r < 2 ^ 32)
    (numClusters : Nat) (context : SearchContext K D) (query : Nat → K) (H : Type) [Heap H K] :
    Fills (C := Nat) k (selected.filter fun r => (slotOf r).clusterId ∈
        S.visitedClusters context.std (S.globalQuery id context.sqrt context.memory query)) 0
      ((S.filteredSearchGlobal H context.std id context.sqrt context.memory query k
        (evaluatorOf S.clusterOffsets numClusters (selected.map slotOf)) context.arrays).map
          KNNCandidate.index) := by
  have hcounts := h.counts_of_indexed numClusters hnodup hindexed
  refine h.visitClusters_fills hM context.std hk (h.selects_evaluatorOf hindexed numClusters) hnodup
    hindexed hlt32 (S.nodup_visitedClusters _ _) (S.visitedClusters_lt _ _) (fun c hc hskip => ?_)
    (fun c hc => ?_) _ _ H
  · rcases of_decide_eq_true hskip with hzero | hempty
    · have hnone := hcounts c (S.visitedClusters_lt _ _ c hc)
      rw [hzero] at hnone
      exact List.length_eq_zero_iff.mp hnone.symm
    · rw [DistanceMeasure.selectedSlots, hempty, List.range_zero, List.filter_nil]
  · rintro selection hselection
    obtain rfl := Option.mem_some_iff.mp hselection
    exact hcounts c (S.visitedClusters_lt _ _ c hc)

namespace PDXearchWrapperGlobal

variable {w : PDXearchWrapperGlobal K E D} {ctx : BuildContext K E} {Q : QuantizationOf K E D}
  {buffer : EmbeddingBuffer K}

omit [LinearOrder K] [LinearOrder D] in
theorem SetUpWith.nodup_rowIds (h : w.SetUpWith ctx Q buffer) :
    (CreateIndex.bufferedRowIds buffer).Nodup :=
  (List.nodup_map_iff_inj_on List.nodup_range).mpr fun e he e' he' =>
    h.distinct e (List.mem_range.mp he) e' (List.mem_range.mp he')

omit [LinearOrder K] [LinearOrder D] in
theorem SetUpWith.exists_rowsInSlots (h : w.SetUpWith ctx Q buffer) :
    ∃ S, w.searcher = some S ∧
      S.SameIndex (w.builtSearcher ctx (w.buildInput ctx Q w.numClusters id buffer.rowIds
        buffer.embeddings buffer.count) buffer.count) ∧
      RowsInSlots buffer.count buffer.rowIds
        (rowOfSlot ctx w.numClusters buffer.rowIds buffer.embeddings buffer.count)
        w.rowIdClusterMapping S := by
  have hrows := rowsInSlots_builtSearcher (Q := Q) w.toPDXearchWrapper id h.inRange h.distinct
  have hsame := h.sameIndex
  cases hsearcher : w.searcher with
  | none =>
    rw [hsearcher] at hsame
    cases hsame
  | some S =>
    rw [hsearcher] at hsame
    cases hsame with
    | some hsame =>
      refine ⟨S, rfl, hsame, ?_⟩
      rw [h.mapping_eq]
      exact hrows.of_sameIndex hsame

omit [Zero E] [LinearOrder D] in
theorem isVisited_eq (hS : w.searcher = some S) (context : SearchContext K D) (query : Nat → K)
    (nProbe r : Nat) : w.isVisited context query nProbe r =
      decide ((w.rowIdClusterMapping r).clusterId ∈ (S.setNProbe nProbe).visitedClusters context.std
        ((S.setNProbe nProbe).globalQuery id context.sqrt context.memory query)) := by
  rw [isVisited, hS, Option.any_some]

omit [LinearOrder D] in
/-- All clusters are visited if the number of them to probe is zero, or not less than there are. -/
theorem SetUpWith.isVisited_of_nProbe (h : w.SetUpWith ctx Q buffer) (context : SearchContext K D)
    (query : Nat → K) {nProbe : Nat} (hprobe : nProbe = 0 ∨ w.numClusters ≤ nProbe) {r : Nat}
    (hr : r ∈ CreateIndex.bufferedRowIds buffer) : w.isVisited context query nProbe r = true := by
  obtain ⟨S, hS, hsame, hrows⟩ := h.exists_rowsInSlots
  have hclusters : S.pdxData.numClusters = w.numClusters := by
    rw [hsame.pdxData_eq]
    rfl
  obtain ⟨e, he, rfl⟩ := List.mem_map.mp hr
  obtain ⟨c, p, hslot, hrow⟩ := hrows.exists_slot e (List.mem_range.mp he)
  have hvisit : (S.setNProbe nProbe).clustersToVisit = S.pdxData.numClusters := by
    rw [Searcher.clustersToVisit]
    split
    · rfl
    · rename_i hnot
      rw [not_or, not_lt] at hnot
      exact le_antisymm hnot.2 (hclusters ▸ hprobe.resolve_left hnot.1)
  rw [isVisited_eq hS, decide_eq_true_eq, ← hrow, hrows.slotOf_slotRow c p hslot,
    Searcher.visitedClusters, hvisit, List.take_of_length_le]
  · exact (Searcher.getClustersAccessOrderIVF_perm _ _ _ _).mem_iff.mpr (List.mem_range.mpr hslot.1)
  · rw [(Searcher.getClustersAccessOrderIVF_perm _ _ _ _).length_eq, List.length_range]
    exact le_rfl

variable (H : Type) [Heap H K]

/-- `Search` returns different rows of the visited clusters, as many as there are up to the limit. -/
theorem SetUpWith.search_fills (h : w.SetUpWith ctx Q buffer)
    (hM : ∀ S ∈ w.searcher, Measured S.pdxData M)
    (hlt : ∀ r ∈ CreateIndex.bufferedRowIds buffer, r < 2 ^ 32) (context : SearchContext K D)
    (query : Nat → K) {limit : Nat} (hk : 0 < limit) (nProbe : Nat) :
    ∃ result : List Nat, w.search H context query limit nProbe = some result ∧
      Fills (C := Nat) limit
        ((CreateIndex.bufferedRowIds buffer).filter (w.isVisited context query nProbe)) 0 result := by
  obtain ⟨S, hS, -, hrows⟩ := h.exists_rowsInSlots
  have hprobing : RowsInSlots buffer.count buffer.rowIds
      (rowOfSlot ctx w.numClusters buffer.rowIds buffer.embeddings buffer.count)
      w.rowIdClusterMapping (S.setNProbe nProbe) := hrows.of_sameIndex ⟨rfl, rfl⟩
  have hfills := hprobing.searchGlobal_fills (hM S hS) hk
    (fun e he => List.mem_map_of_mem (List.mem_range.mpr he)) h.nodup_rowIds
    (fun r hr => by
      obtain ⟨e, he, rfl⟩ := List.mem_map.mp hr
      exact ⟨e, List.mem_range.mp he, rfl⟩) hlt context query H
  refine ⟨_, by rw [PDXearchWrapperGlobal.search, hS, Option.map_some], ?_⟩
  simp only [funext (isVisited_eq hS context query nProbe)]
  exact hfills

/-- `FilteredSearch` returns different ones of the passing rows in the visited clusters, as many as
there are up to the limit. These depend on which rows pass only. -/
theorem SetUpWith.filteredSearch_fills (h : w.SetUpWith ctx Q buffer)
    (hM : ∀ S ∈ w.searcher, Measured S.pdxData M) {passing : List Nat} (hnodup : passing.Nodup)
    (hindexed : ∀ r ∈ passing, r ∈ CreateIndex.bufferedRowIds buffer)
    (hlt : ∀ r ∈ passing, r < 2 ^ 32) (context : SearchContext K D) (query : Nat → K) {limit : Nat}
    (hk : 0 < limit) (nProbe : Nat) :
    ∃ result : List Nat, (∀ rowIdVectors, (emittedRowIds rowIdVectors).Perm passing →
        w.filteredSearch H context query limit nProbe rowIdVectors = some result) ∧
      Fills (C := Nat) limit (passing.filter (w.isVisited context query nProbe)) 0 result := by
  obtain ⟨S, hS, -, hrows⟩ := h.exists_rowsInSlots
  have hprobing : RowsInSlots buffer.count buffer.rowIds
      (rowOfSlot ctx w.numClusters buffer.rowIds buffer.embeddings buffer.count)
      w.rowIdClusterMapping (S.setNProbe nProbe) := hrows.of_sameIndex ⟨rfl, rfl⟩
  have hfills := hprobing.filteredSearchGlobal_fills (hM S hS) hk hnodup
    (fun r hr => by
      obtain ⟨e, he, rfl⟩ := List.mem_map.mp (hindexed r hr)
      exact ⟨e, List.mem_range.mp he, rfl⟩) hlt w.numClusters context query H
  refine ⟨((S.setNProbe nProbe).filteredSearchGlobal H context.std id context.sqrt context.memory query
    limit (evaluatorOf S.clusterOffsets w.numClusters (passing.map w.rowIdClusterMapping))
      context.arrays).map KNNCandidate.index, fun rowIdVectors hperm => ?_, ?_⟩
  · rw [PDXearchWrapperGlobal.filteredSearch, hS, Option.map_some, createPredicateEvaluator_eq,
      evaluatorOf_perm (hperm.map _)]
  · simp only [funext (isVisited_eq hS context query nProbe)]
    exact hfills

end PDXearchWrapperGlobal

end Results

end PDXearch
