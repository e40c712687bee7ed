import PDXearch.Index.Evaluator

/-!
# Indexed rows

A row id is indexed if the slot that its row group's metadata have for it holds its low 32 bits; the
rows that a row group is set up with are. For a list of indexed row ids the slots that
`CreatePredicateEvaluatorForRowGroup` selects hold exactly the low 32 bits of these row ids.
-/

namespace PDXearch

open Lib

/-- What `SetUpIndexForRowGroup` leaves behind: every row group has the given number of clusters, and
the offsets of its searcher are those that the constructor computes. -/
structure PDXRowGroup.Consistent {K E D : Type} [Zero E] (rowGroup : PDXRowGroup K E D)
    (numClusters : Nat) : Prop where
  numClusters_eq : rowGroup.searcher.pdxData.numClusters = numClusters
  clusterOffsets_eq : rowGroup.searcher.clusterOffsets =
    (Searcher.scanClusters rowGroup.searcher.pdxData).1

def PDXearchWrapperParallel.Consistent {K E D : Type} [Zero E] (w : PDXearchWrapperParallel K E D) :
    Prop :=
  ∀ r, ∀ rowGroup ∈ w.rowGroups r, rowGroup.Consistent w.numClustersPerRowGroup

/-- The slot that the metadata have for the row id holds its low 32 bits. -/
def PDXRowGroup.Holds {K E D : Type} [Zero E] (rowGroup : PDXRowGroup K E D) (rowId : Nat) : Prop :=
  IsSlot rowGroup.searcher.pdxData (rowGroup.slotOf rowId).clusterId
      (rowGroup.slotOf rowId).indexInCluster ∧
    (rowGroup.searcher.pdxData.cluster (rowGroup.slotOf rowId).clusterId).indices
      (rowGroup.slotOf rowId).indexInCluster = rowId % 2 ^ 32

def PDXearchWrapperParallel.IsIndexed {K E D : Type} [Zero E] (w : PDXearchWrapperParallel K E D)
    (rowId : Nat) : Prop :=
  ∃ rowGroup ∈ w.rowGroups (getRowGroupId rowId), rowGroup.Holds rowId

/-! ## Setting up row groups -/

/-- Row groups that differ at most in their pruners and in what queries leave behind. -/
structure PDXRowGroup.SameIndex {K E D : Type} (rowGroup rowGroup' : PDXRowGroup K E D) : Prop where
  rowIdMetadata_eq : rowGroup.rowIdMetadata = rowGroup'.rowIdMetadata
  pdxData_eq : rowGroup.searcher.pdxData = rowGroup'.searcher.pdxData
  clusterOffsets_eq : rowGroup.searcher.clusterOffsets = rowGroup'.searcher.clusterOffsets

/-- Distinct rows of one row group, which the clustering library can deal out. -/
structure EmbeddingBuffer.IsRowGroup {K : Type} (buffer : EmbeddingBuffer K)
    (kmeans : SuperKMeans K) (numClusters rowGroupId : Nat) : Prop where
  distinct : ∀ e < buffer.count, ∀ e' < buffer.count,
    buffer.rowIds e = buffer.rowIds e' → e = e'
  getRowGroupId_eq : ∀ e < buffer.count, getRowGroupId (buffer.rowIds e) = rowGroupId
  inRange : kmeans.InRange buffer.embeddings buffer.count numClusters

/-- The index after `SetUpIndexForRowGroup` was called for some row groups; `rows` are the rows it
was called with. The pruners, and what queries have left behind since, are arbitrary. -/
structure PDXearchWrapperParallel.SetUpWith {K E D : Type} [Field K] [Zero E]
    (w : PDXearchWrapperParallel K E D) (ctx : BuildContext K E) (Q : QuantizationOf K E D)
    (rows : Nat → Option (EmbeddingBuffer K)) : Prop where
  isRowGroup : ∀ g, ∀ buffer ∈ rows g, buffer.IsRowGroup ctx.kmeans w.numClustersPerRowGroup g
  sameIndex : ∀ g, Option.Rel PDXRowGroup.SameIndex (w.rowGroups g) ((rows g).map fun buffer =>
    w.builtRowGroup ctx Q buffer.rowIds buffer.embeddings buffer.count)

/-- One of the rows that the index was set up with. -/
def IsRowOf {K : Type} (rows : Nat → Option (EmbeddingBuffer K)) (rowId : Nat) : Prop :=
  ∃ buffer ∈ rows (getRowGroupId rowId), ∃ e < buffer.count, buffer.rowIds e = rowId

section SetUp

variable {K E D : Type} [Field K] [Zero E]

namespace PDXearchWrapperParallel

theorem setUpWith_new {base : PDXearchWrapper K} {estimatedCardinality : Nat}
    {w : PDXearchWrapperParallel K E D} (h : new base estimatedCardinality = some w)
    (ctx : BuildContext K E) (Q : QuantizationOf K E D) : w.SetUpWith ctx Q fun _ => none := by
  rw [new] at h
  split at h
  · cases h
  · obtain rfl := Option.some.inj h
    exact ⟨fun _ _ hr => (Option.some_ne_none _ hr.symm).elim, fun _ => .none⟩

variable {w : PDXearchWrapperParallel K E D} {ctx : BuildContext K E} {Q : QuantizationOf K E D}
  {rows : Nat → Option (EmbeddingBuffer K)}

theorem SetUpWith.setUpIndexForRowGroup (h : w.SetUpWith ctx Q rows) {buffer : EmbeddingBuffer K}
    {rowGroupId : Nat}
    (hbuffer : buffer.IsRowGroup ctx.kmeans w.numClustersPerRowGroup rowGroupId) :
    (w.setUpIndexForRowGroup ctx Q buffer.rowIds buffer.embeddings buffer.count
      rowGroupId).SetUpWith ctx Q (Function.update rows rowGroupId (some buffer)) := by
  constructor
  · intro g buffer' hg
    by_cases hgroup : g = rowGroupId
    · rw [hgroup, Function.update_self] at hg
      obtain rfl := Option.some.inj hg
      rw [hgroup]
      exact hbuffer
    · rw [Function.update_of_ne hgroup] at hg
      exact h.isRowGroup g buffer' hg
  · intro g
    change Option.Rel _ (Function.update w.rowGroups rowGroupId _ g) _
    by_cases hgroup : g = rowGroupId
    · subst hgroup
      simp only [Function.update_self]
      exact .some ⟨rfl, rfl, rfl⟩
    · simp only [Function.update_of_ne hgroup]
      exact h.sameIndex g

/-- Every row group of the index was built from its rows. -/
theorem SetUpWith.exists_buffer (h : w.SetUpWith ctx Q rows) {g : Nat} {rowGroup : PDXRowGroup K E D}
    (hg : rowGroup ∈ w.rowGroups g) : ∃ buffer ∈ rows g, rowGroup.SameIndex
      (w.builtRowGroup ctx Q buffer.rowIds buffer.embeddings buffer.count) := by
  have hsame := h.sameIndex g
  rw [Option.mem_def.mp hg] at hsame
  cases hrows : rows g with
  | none =>
    rw [hrows] at hsame
    cases hsame
  | some buffer =>
    rw [hrows] at hsame
    cases hsame with
    | some hsame => exact ⟨buffer, rfl, hsame⟩

theorem SetUpWith.consistent (h : w.SetUpWith ctx Q rows) : w.Consistent := by
  intro g rowGroup hg
  obtain ⟨buffer, -, hsame⟩ := h.exists_buffer hg
  constructor
  · rw [hsame.pdxData_eq]
    rfl
  · rw [hsame.pdxData_eq, hsame.clusterOffsets_eq]
    rfl

theorem SetUpWith.measured {M : Type} [LinearOrder K] [LinearOrder D] [AddCommMonoid M]
    (h : w.SetUpWith ctx Q rows)
    (hM : ∀ buffer : EmbeddingBuffer K, Measured (w.builtRowGroup ctx Q buffer.rowIds
      buffer.embeddings buffer.count).searcher.pdxData M) :
    ∀ g, ∀ rowGroup ∈ w.rowGroups g, Measured rowGroup.searcher.pdxData M := by
  intro g rowGroup hg
  obtain ⟨buffer, -, hsame⟩ := h.exists_buffer hg
  rw [hsame.pdxData_eq]
  exact hM buffer

/-- The rows that a row group is set up with. -/
theorem holds_builtRowGroup (w : PDXearchWrapperParallel K E D) {buffer : EmbeddingBuffer K}
    {rowGroupId : Nat}
    (hbuffer : buffer.IsRowGroup ctx.kmeans w.numClustersPerRowGroup rowGroupId) {e : Nat}
    (he : e < buffer.count) :
    (w.builtRowGroup ctx Q buffer.rowIds buffer.embeddings buffer.count).Holds
      (buffer.rowIds e) := by
  have hrows := rowsInSlots_builtSearcher (Q := Q) w.toPDXearchWrapper (· % defaultRowGroupSize)
    hbuffer.inRange (mod_inj_of_getRowGroupId hbuffer.distinct hbuffer.getRowGroupId_eq)
  obtain ⟨c, p, hslot, hrow⟩ := hrows.exists_slot e he
  have hslotOf : (w.builtRowGroup ctx Q buffer.rowIds buffer.embeddings buffer.count).slotOf
      (buffer.rowIds e) = ⟨c, p⟩ :=
    hrow ▸ hrows.slotOf_slotRow c p hslot
  rw [PDXRowGroup.Holds, hslotOf]
  exact ⟨hslot, (hrows.indices c p hslot).trans (congrArg (· % 2 ^ 32) hrow)⟩

theorem SetUpWith.isIndexed (h : w.SetUpWith ctx Q rows) {rowId : Nat} (hrow : IsRowOf rows rowId) :
    w.IsIndexed rowId := by
  obtain ⟨buffer, hbuffer, e, he, rfl⟩ := hrow
  have hsame := h.sameIndex (getRowGroupId (buffer.rowIds e))
  rw [Option.mem_def.mp hbuffer] at hsame
  cases hrowGroup : w.rowGroups (getRowGroupId (buffer.rowIds e)) with
  | none =>
    rw [hrowGroup] at hsame
    cases hsame
  | some rowGroup =>
    rw [hrowGroup] at hsame
    cases hsame with
    | some hsame =>
      refine ⟨rowGroup, hrowGroup, ?_⟩
      have hholds := holds_builtRowGroup (Q := Q) w (h.isRowGroup _ buffer hbuffer) he
      rw [PDXRowGroup.Holds, PDXRowGroup.slotOf, hsame.rowIdMetadata_eq, hsame.pdxData_eq]
      exact hholds

end PDXearchWrapperParallel

end SetUp

/-! ## Selecting indexed rows -/

namespace PDXRowGroup

variable {K E D : Type} [Zero E] {rowGroup : PDXRowGroup K E D} {passing : List Nat}
  {numClusters : Nat}

/-- Of a slot the bit tells whether a row of the list is there. -/
theorem selectionVector_iff (h : rowGroup.Consistent numClusters)
    (hheld : ∀ r ∈ passing, rowGroup.Holds r) {c p : Nat}
    (hslot : IsSlot rowGroup.searcher.pdxData c p) :
    (rowGroup.searcher.selection (createPredicateEvaluatorForRowGroup passing rowGroup)
      c).selectionVector p = true ↔ ∃ r ∈ passing, rowGroup.slotOf r = ⟨c, p⟩ := by
  rw [createPredicateEvaluatorForRowGroup_eq]
  refine (selectionVector_evaluatorOf _ _).trans ?_
  constructor
  · rintro ⟨slot, hmem, heq⟩
    obtain ⟨r, hr, rfl⟩ := List.mem_map.mp hmem
    have hheld := (hheld r hr).1
    rw [h.clusterOffsets_eq, Searcher.scanClusters_offsets _ hheld.1,
      Searcher.scanClusters_offsets _ hslot.1] at heq
    obtain ⟨hc, hp⟩ := offset_add_inj (by exact hheld.2) (by exact hslot.2) heq
    exact ⟨r, hr, by rw [← hc, ← hp]⟩
  · rintro ⟨r, hr, heq⟩
    exact ⟨_, List.mem_map.mpr ⟨r, hr, rfl⟩, by rw [heq]⟩

omit [Zero E] in
/-- A cluster with no passing tuples has no row of the list. -/
theorem clusterId_ne_of_passingTuples {c : Nat} (hzero : (rowGroup.searcher.selection
      (createPredicateEvaluatorForRowGroup passing rowGroup) c).passingTuples = 0) :
    ∀ r ∈ passing, (rowGroup.slotOf r).clusterId ≠ c := by
  intro r hr heq
  rw [createPredicateEvaluatorForRowGroup_eq] at hzero
  have hnone := (nPassingTuples_evaluatorOf _ _).symm.trans hzero
  have hmem : rowGroup.slotOf r ∈ (passing.map rowGroup.slotOf).filter
      fun slot => slot.clusterId = c :=
    List.mem_filter.mpr ⟨List.mem_map_of_mem hr, by simpa using heq⟩
  rw [List.length_eq_zero_iff.mp hnone] at hmem
  exact List.not_mem_nil hmem

/-- The selected slots of a cluster are those of the list's rows. -/
theorem mem_selectedSlots_iff (h : rowGroup.Consistent numClusters)
    (hheld : ∀ r ∈ passing, rowGroup.Holds r) {c : Nat} (hc : c < numClusters) {p : Nat} :
    p ∈ DistanceMeasure.selectedSlots rowGroup.searcher c (some (rowGroup.searcher.selection
      (createPredicateEvaluatorForRowGroup passing rowGroup) c)) ↔
        ∃ r ∈ passing, rowGroup.slotOf r = ⟨c, p⟩ := by
  rw [DistanceMeasure.selectedSlots, List.mem_filter, List.mem_range, Option.all_some]
  constructor
  · rintro ⟨hp, hsel⟩
    exact (selectionVector_iff h hheld ⟨h.numClusters_eq ▸ hc, hp⟩).mp hsel
  · rintro ⟨r, hr, heq⟩
    have hslot := (hheld r hr).1
    rw [heq] at hslot
    exact ⟨hslot.2, (selectionVector_iff h hheld hslot).mpr ⟨r, hr, heq⟩⟩

/-- A cluster with no passing tuples has no selected slot. -/
theorem selectedSlots_eq_nil (h : rowGroup.Consistent numClusters)
    (hheld : ∀ r ∈ passing, rowGroup.Holds r) {c : Nat} (hc : c < numClusters)
    (hzero : (rowGroup.searcher.selection (createPredicateEvaluatorForRowGroup passing rowGroup)
      c).passingTuples = 0) :
    DistanceMeasure.selectedSlots rowGroup.searcher c (some (rowGroup.searcher.selection
      (createPredicateEvaluatorForRowGroup passing rowGroup) c)) = [] := by
  refine List.eq_nil_iff_forall_not_mem.mpr fun p hp => ?_
  obtain ⟨r, hr, heq⟩ := (mem_selectedSlots_iff h hheld hc).mp hp
  exact clusterId_ne_of_passingTuples hzero r hr (by rw [heq])

/-- The slots of different rows of a row group hold different low 32 bits. -/
theorem eq_of_mod_eq {r r' : Nat} (hgroup : getRowGroupId r = getRowGroupId r')
    (hmod : r % 2 ^ 32 = r' % 2 ^ 32) : r = r' := by
  simp only [getRowGroupId, defaultRowGroupSize] at hgroup
  omega

/-- The selected slots of all clusters hold the low 32 bits of the row ids of the list. -/
theorem selectedIndices_perm (h : rowGroup.Consistent numClusters)
    (hheld : ∀ r ∈ passing, rowGroup.Holds r) (hnodup : passing.Nodup)
    (hgroup : ∀ r ∈ passing, ∀ r' ∈ passing, getRowGroupId r = getRowGroupId r')
    {order : List Nat} (horder : order.Perm (List.range numClusters)) :
    (order.flatMap fun c => (DistanceMeasure.selectedSlots rowGroup.searcher c
      (some (rowGroup.searcher.selection (createPredicateEvaluatorForRowGroup passing rowGroup)
        c))).map (rowGroup.searcher.pdxData.cluster c).indices).Perm (passing.map (· % 2 ^ 32)) := by
  have hslots : ∀ c ∈ order, ∀ p, p ∈ DistanceMeasure.selectedSlots rowGroup.searcher c
      (some (rowGroup.searcher.selection (createPredicateEvaluatorForRowGroup passing rowGroup)
        c)) ↔ ∃ r ∈ passing, rowGroup.slotOf r = ⟨c, p⟩ := fun c hc p =>
    mem_selectedSlots_iff h hheld (List.mem_range.mp (horder.mem_iff.mp hc))
  have hindex : ∀ {c p r}, r ∈ passing → rowGroup.slotOf r = ⟨c, p⟩ →
      (rowGroup.searcher.pdxData.cluster c).indices p = r % 2 ^ 32 := by
    intro c p r hr heq
    have hholds := (hheld r hr).2
    rwa [heq] at hholds
  have hmod : ∀ r ∈ passing, ∀ r' ∈ passing, r % 2 ^ 32 = r' % 2 ^ 32 → r = r' :=
    fun r hr r' hr' => eq_of_mod_eq (hgroup r hr r' hr')
  refine (List.perm_ext_iff_of_nodup ?_ ((List.nodup_map_iff_inj_on hnodup).mpr hmod)).mpr
    fun x => ?_
  · refine nodup_flatMap_map (horder.nodup_iff.mpr List.nodup_range)
      (fun _ _ => List.nodup_range.filter _) fun c hc p hp c' hc' p' hp' heq => ?_
    obtain ⟨r, hr, hslot⟩ := (hslots c hc p).mp hp
    obtain ⟨r', hr', hslot'⟩ := (hslots c' hc' p').mp hp'
    rw [hindex hr hslot, hindex hr' hslot'] at heq
    obtain rfl := hmod r hr r' hr' heq
    exact RowIdClusterMapping.mk.inj (hslot.symm.trans hslot')
  · rw [List.mem_flatMap, List.mem_map]
    constructor
    · rintro ⟨c, hc, hx⟩
      obtain ⟨p, hp, rfl⟩ := List.mem_map.mp hx
      obtain ⟨r, hr, hslot⟩ := (hslots c hc p).mp hp
      exact ⟨r, hr, (hindex hr hslot).symm⟩
    · rintro ⟨r, hr, rfl⟩
      have hmem : (rowGroup.slotOf r).clusterId ∈ order :=
        horder.mem_iff.mpr (List.mem_range.mpr (h.numClusters_eq ▸ (hheld r hr).1.1))
      exact ⟨_, hmem, List.mem_map.mpr
        ⟨_, (hslots _ hmem _).mpr ⟨r, hr, rfl⟩, hindex hr rfl⟩⟩

end PDXRowGroup

end PDXearch
