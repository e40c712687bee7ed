import PDXearch.Index.Wrapper

/-!
# The built index is a faithful copy

An index as `SetUpIndexForRowGroup` and `SetUpGlobalIndex` leave it: every row sits in one slot, the
mapping finds it there, the offsets of the searcher number the slots, and reading a slot through the
layout gives back the encoded embedding.
-/

namespace PDXearch

open Lib

/-- `read` reads what `StoreClusterEmbeddings` stores, and every cell is stored to exactly once. -/
structure Reads {K E D : Type} (Q : Quantization K E D)
    (read : Nat → Nat → (Nat → E) → Nat → Nat → E) : Prop where
  cells : ∀ {v h n : Nat} {input : Nat → Nat → E}, hDimSize ∣ h →
    (Q.storeClusterEmbeddings v h n input).map Prod.fst = List.range (n * (v + h))
  read_store : ∀ {v h n : Nat} {input : Nat → Nat → E} {i d : Nat} (buffer : Nat → E),
    hDimSize ∣ h → i < n → d < v + h →
    read v n (store (Q.storeClusterEmbeddings v h n input) buffer) i d = input i d

theorem f32_reads {K : Type} [Field K] [LinearOrder K] :
    Reads (Quantization.f32 (K := K)) readF32 where
  cells := storeClusterEmbeddingsF32_cells
  read_store buffer hh := readF32_store hh buffer

theorem u8_reads {K : Type} [Field K] [LinearOrder K] [FloorRing K] (maxValue : UInt8)
    (params : ScalarQuantizationParams K) : Reads (Quantization.u8 maxValue params) readU8 where
  cells := storeClusterEmbeddingsU8_cells
  read_store buffer hh := readU8_store hh buffer

variable {K E D : Type} [Zero E]

/-- The searcher `S` has a copy of `n` embeddings, row `e` under the id `rowIds e`, and `slotOf`
finds a row by its id. -/
structure FaithfulCopy (read : Nat → Nat → (Nat → E) → Nat → Nat → E) (encode : K → E)
    (numDimensions n : Nat) (rowIds : Nat → Nat) (embeddings : Nat → K)
    (slotOf : Nat → RowIdClusterMapping) (S : Searcher K E D) : Prop where
  numDimensions_eq : S.pdxData.numDimensions = numDimensions
  existsUnique_slot : ∀ e < n, ∃! slot : Nat × Nat, IsSlot S.pdxData slot.1 slot.2 ∧
    (S.pdxData.cluster slot.1).indices slot.2 = rowIds e
  isSlot : ∀ e < n, IsSlot S.pdxData (slotOf (rowIds e)).clusterId (slotOf (rowIds e)).indexInCluster
  indices : ∀ e < n, (S.pdxData.cluster (slotOf (rowIds e)).clusterId).indices
    (slotOf (rowIds e)).indexInCluster = rowIds e
  exists_row : ∀ c p, IsSlot S.pdxData c p → ∃ e < n, slotOf (rowIds e) = ⟨c, p⟩
  bijOn : Set.BijOn (fun slot : Nat × Nat => S.clusterOffsets slot.1 + slot.2)
    {slot | IsSlot S.pdxData slot.1 slot.2} (Set.Iio n)
  readBack : ∀ e < n, ∀ d < numDimensions,
    read S.pdxData.numVerticalDimensions
        (S.pdxData.cluster (slotOf (rowIds e)).clusterId).numEmbeddings
        (S.pdxData.cluster (slotOf (rowIds e)).clusterId).data (slotOf (rowIds e)).indexInCluster d =
      encode (embeddings (e * numDimensions + d))
  writtenOnce : ∀ c < S.pdxData.numClusters, ∃ (input : Nat → Nat → E) (buffer : Nat → E),
    (S.pdxData.cluster c).data = store (S.pdxData.quantization.storeClusterEmbeddings
      S.pdxData.numVerticalDimensions S.pdxData.numHorizontalDimensions
      (S.pdxData.cluster c).numEmbeddings input) buffer ∧
    (S.pdxData.quantization.storeClusterEmbeddings S.pdxData.numVerticalDimensions
      S.pdxData.numHorizontalDimensions (S.pdxData.cluster c).numEmbeddings input).map Prod.fst =
      List.range ((S.pdxData.cluster c).numEmbeddings * numDimensions)

/-! ## From the build loop to the searcher -/

/-- The searcher's index has the clusters that the build loop filled. -/
structure BuiltFrom (b : BuildInput K E D) (S : Searcher K E D) : Prop where
  clusters : S.pdxData.clusters = b.build.clusters
  numClusters : S.pdxData.numClusters = b.numClusters
  numDimensions : S.pdxData.numDimensions = b.numDimensions
  quantization : S.pdxData.quantization = b.quantization
  clusterOffsets : S.clusterOffsets = (Searcher.scanClusters S.pdxData).1

namespace BuiltFrom

variable {b : BuildInput K E D} {S : Searcher K E D} {n : Nat} {f : Nat → Nat}

theorem cluster_eq (hS : BuiltFrom b S) {c : Nat} (hc : c < S.pdxData.numClusters) :
    ∃ tmp, S.pdxData.cluster c = b.builtCluster c (store (b.gatherStores c) tmp) := by
  rw [IndexPDXIVF.cluster, hS.clusters]
  exact BuildInput.build_spec.2.2 c (hS.numClusters ▸ hc)

theorem numEmbeddings_eq (hS : BuiltFrom b S) {c : Nat} (hc : c < S.pdxData.numClusters) :
    (S.pdxData.cluster c).numEmbeddings = (b.assignments c).length := by
  obtain ⟨tmp, htmp⟩ := hS.cluster_eq hc
  rw [htmp]
  rfl

theorem lt_length (hS : BuiltFrom b S) {c p : Nat} (hslot : IsSlot S.pdxData c p) :
    p < (b.assignments c).length := by
  rw [← hS.numEmbeddings_eq hslot.1]
  exact hslot.2

theorem indices_eq (hS : BuiltFrom b S) {c p : Nat} (hslot : IsSlot S.pdxData c p) :
    (S.pdxData.cluster c).indices p = b.rowIds (embeddingAt b.assignments c p) % 2 ^ 32 := by
  obtain ⟨tmp, htmp⟩ := hS.cluster_eq hslot.1
  rw [htmp, BuildInput.indices_builtCluster _ (hS.lt_length hslot)]

variable (ha : ∀ c, b.assignments c = (List.range n).filter fun e => f e = c)

include ha in
/-- A slot has an embedding of its cluster. -/
theorem embeddingAt_slot (hS : BuiltFrom b S) {c p : Nat} (hslot : IsSlot S.pdxData c p) :
    embeddingAt b.assignments c p < n ∧ f (embeddingAt b.assignments c p) = c :=
  embeddingAt_mem ha (hS.lt_length hslot)

include ha in
/-- No embedding is in two slots. -/
theorem slot_unique (hS : BuiltFrom b S) {c p c' p' : Nat} (hslot : IsSlot S.pdxData c p)
    (hslot' : IsSlot S.pdxData c' p')
    (heq : embeddingAt b.assignments c p = embeddingAt b.assignments c' p') : c = c' ∧ p = p' := by
  have hc := (hS.embeddingAt_slot ha hslot).2
  have hc' := (hS.embeddingAt_slot ha hslot').2
  rw [heq, hc'] at hc
  subst hc
  exact ⟨rfl, embeddingAt_inj ha (hS.lt_length hslot) (hS.lt_length hslot') heq⟩

include ha in
theorem clusterSize_eq (hS : BuiltFrom b S) (hf : ∀ e < n, f e < b.numClusters) (c : Nat) :
    Searcher.clusterSize S.pdxData c = ((List.range n).filter fun e => f e = c).length := by
  rw [← ha]
  by_cases hc : c < S.pdxData.numClusters
  · exact hS.numEmbeddings_eq hc
  · have hcluster : S.pdxData.cluster c = default := by
      rw [IndexPDXIVF.cluster, hS.clusters]
      refine List.getD_eq_default _ _ ?_
      rw [BuildInput.build_spec.1, ← hS.numClusters]
      omega
    rw [Searcher.clusterSize, hcluster, ha]
    refine (List.length_eq_zero_iff.mpr (List.filter_eq_nil_iff.mpr fun e he => ?_)).symm
    have hlt := hf e (List.mem_range.mp he)
    rw [hS.numClusters] at hc
    simp only [decide_eq_true_eq]
    omega

include ha in
/-- The offsets number the slots. -/
theorem bijOn (hS : BuiltFrom b S) (hf : ∀ e < n, f e < b.numClusters) :
    Set.BijOn (fun slot : Nat × Nat => S.clusterOffsets slot.1 + slot.2)
      {slot | IsSlot S.pdxData slot.1 slot.2} (Set.Iio n) := by
  have hslots := bijOn_slots (Searcher.clusterSize S.pdxData) S.pdxData.numClusters
  have hfibres := offset_fibres (List.range n) fun e he => hf e (List.mem_range.mp he)
  rw [funext (hS.clusterSize_eq ha hf), hS.numClusters, hfibres, List.length_range,
    ← hS.numClusters, ← funext (hS.clusterSize_eq ha hf)] at hslots
  refine hslots.congr fun slot hslot => ?_
  rw [hS.clusterOffsets, Searcher.scanClusters_offsets _ hslot.1]

include ha in
/-- Every embedding is in a slot of its cluster. -/
theorem exists_slot (hS : BuiltFrom b S) (hf : ∀ e < n, f e < b.numClusters) {e : Nat} (he : e < n) :
    ∃ p, IsSlot S.pdxData (f e) p ∧ embeddingAt b.assignments (f e) p = e := by
  obtain ⟨p, hp, hat⟩ := exists_embeddingAt ha he
  have hc : f e < S.pdxData.numClusters := hS.numClusters ▸ hf e he
  exact ⟨p, ⟨hc, (hS.numEmbeddings_eq hc).symm ▸ hp⟩, hat⟩

/-- The slot of a row's embedding is where the mapping says that the row is. -/
theorem slot_of_row (hS : BuiltFrom b S) (ha : ∀ c, b.assignments c =
      (List.range n).filter fun e => f e = c) (hf : ∀ e < n, f e < b.numClusters)
    (hinj : ∀ e < n, ∀ e' < n, b.mappingIdx (b.rowIds e) = b.mappingIdx (b.rowIds e') → e = e')
    {e : Nat} (he : e < n) : ∃ p, IsSlot S.pdxData (f e) p ∧
      embeddingAt b.assignments (f e) p = e ∧
      b.build.mapping (b.mappingIdx (b.rowIds e)) = ⟨f e, p⟩ := by
  obtain ⟨p, hslot, hat⟩ := hS.exists_slot ha hf he
  have hmapping := BuildInput.mapping_build ha hinj (hf e he) (hS.lt_length hslot)
  rw [hat] at hmapping
  exact ⟨p, hslot, hat, hmapping⟩

/-- Reading a slot back through the layout. -/
theorem readBack (hS : BuiltFrom b S) {read : Nat → Nat → (Nat → E) → Nat → Nat → E}
    (hread : Reads b.quantization read) {c p d : Nat} (hslot : IsSlot S.pdxData c p)
    (hd : d < b.numDimensions) :
    read S.pdxData.numVerticalDimensions (S.pdxData.cluster c).numEmbeddings
        (S.pdxData.cluster c).data p d =
      b.quantization.encode
        (b.embeddings (embeddingAt b.assignments c p * b.numDimensions + d)) := by
  have hp := hS.lt_length hslot
  obtain ⟨tmp, htmp⟩ := hS.cluster_eq hslot.1
  have hvertical : S.pdxData.numVerticalDimensions =
      (getPDXDimensionSplit b.numDimensions).verticalDimensions := by
    rw [IndexPDXIVF.numVerticalDimensions, hS.numDimensions]
  rw [hvertical, hS.numEmbeddings_eq hslot.1, htmp, ← BuildInput.inputAt_gather tmp hp hd]
  exact hread.read_store _ (hDimSize_dvd_horizontalDimensions _) hp ((split_add _).symm ▸ hd)

theorem writtenOnce (hS : BuiltFrom b S) {read : Nat → Nat → (Nat → E) → Nat → Nat → E}
    (hread : Reads b.quantization read) {c : Nat} (hc : c < S.pdxData.numClusters) :
    ∃ (input : Nat → Nat → E) (buffer : Nat → E),
      (S.pdxData.cluster c).data = store (S.pdxData.quantization.storeClusterEmbeddings
        S.pdxData.numVerticalDimensions S.pdxData.numHorizontalDimensions
        (S.pdxData.cluster c).numEmbeddings input) buffer ∧
      (S.pdxData.quantization.storeClusterEmbeddings S.pdxData.numVerticalDimensions
        S.pdxData.numHorizontalDimensions (S.pdxData.cluster c).numEmbeddings input).map Prod.fst =
        List.range ((S.pdxData.cluster c).numEmbeddings * b.numDimensions) := by
  obtain ⟨tmp, htmp⟩ := hS.cluster_eq hc
  refine ⟨inputAt b.numDimensions (store (b.gatherStores c) tmp), (b.memory c).data, ?_, ?_⟩
  · rw [hS.numEmbeddings_eq hc, htmp, hS.quantization, IndexPDXIVF.numVerticalDimensions,
      IndexPDXIVF.numHorizontalDimensions, hS.numDimensions]
    rfl
  · rw [hS.quantization, hread.cells (IndexPDXIVF.hDimSize_dvd _),
      IndexPDXIVF.vertical_add_horizontal, hS.numDimensions]

theorem faithfulCopy (hS : BuiltFrom b S) {read : Nat → Nat → (Nat → E) → Nat → Nat → E}
    (hread : Reads b.quantization read)
    (ha : ∀ c, b.assignments c = (List.range n).filter fun e => f e = c)
    (hf : ∀ e < n, f e < b.numClusters)
    (hinj : ∀ e < n, ∀ e' < n, b.mappingIdx (b.rowIds e) = b.mappingIdx (b.rowIds e') → e = e')
    (hlt : ∀ e < n, b.rowIds e < 2 ^ 32) :
    FaithfulCopy read b.quantization.encode b.numDimensions n b.rowIds b.embeddings
      (fun r => b.build.mapping (b.mappingIdx r)) S := by
  have hindices : ∀ {c p}, IsSlot S.pdxData c p →
      (S.pdxData.cluster c).indices p = b.rowIds (embeddingAt b.assignments c p) := by
    intro c p hslot
    rw [hS.indices_eq hslot, Nat.mod_eq_of_lt (hlt _ (hS.embeddingAt_slot ha hslot).1)]
  refine ⟨hS.numDimensions, fun e he => ?_, fun e he => ?_, fun e he => ?_, fun c p hslot => ?_,
    hS.bijOn ha hf, fun e he d hd => ?_, fun c hc => hS.writtenOnce hread hc⟩
  · obtain ⟨p, hslot, hat, -⟩ := hS.slot_of_row ha hf hinj he
    refine ⟨(f e, p), ⟨hslot, (hindices hslot).trans (congrArg b.rowIds hat)⟩, ?_⟩
    rintro ⟨c', p'⟩ ⟨hslot', hidx'⟩
    -- the rows are distinct, hence the embeddings are the same
    have hat' : embeddingAt b.assignments c' p' = e :=
      hinj _ (hS.embeddingAt_slot ha hslot').1 _ he
        (congrArg b.mappingIdx ((hindices hslot').symm.trans hidx'))
    obtain ⟨hc, hp⟩ := hS.slot_unique ha hslot' hslot (hat'.trans hat.symm)
    exact Prod.ext hc hp
  · obtain ⟨p, hslot, -, hmapping⟩ := hS.slot_of_row ha hf hinj he
    rw [hmapping]
    exact hslot
  · obtain ⟨p, hslot, hat, hmapping⟩ := hS.slot_of_row ha hf hinj he
    rw [hmapping]
    exact (hindices hslot).trans (congrArg b.rowIds hat)
  · obtain ⟨he, hc⟩ := hS.embeddingAt_slot ha hslot
    obtain ⟨p', hslot', hat', hmapping⟩ := hS.slot_of_row ha hf hinj he
    rw [hc] at hslot' hat' hmapping
    obtain ⟨-, rfl⟩ := hS.slot_unique ha hslot' hslot hat'
    exact ⟨_, he, hmapping⟩
  · obtain ⟨p, hslot, hat, hmapping⟩ := hS.slot_of_row ha hf hinj he
    rw [hmapping]
    simp only
    rw [hS.readBack hread hslot hd, hat]

end BuiltFrom

/-! ## The wrappers' indexes -/

section Wrappers

variable [Field K] {ctx : BuildContext K E} {Q : QuantizationOf K E D}
  {rowIds : Nat → Nat} {embeddings : Nat → K} {n : Nat}

theorem builtFrom_buildInput (w : PDXearchWrapper K) (numClusters : Nat) (mappingIdx : Nat → Nat) :
    BuiltFrom (w.buildInput ctx Q numClusters mappingIdx rowIds embeddings n)
      (w.builtSearcher ctx (w.buildInput ctx Q numClusters mappingIdx rowIds embeddings n) n) :=
  ⟨rfl, rfl, rfl, rfl, rfl⟩

/-- Both wrappers build faithful copies, as long as no two rows share an entry of the mapping. -/
theorem faithfulCopy_builtSearcher (w : PDXearchWrapper K) {numClusters : Nat}
    {mappingIdx : Nat → Nat} {read : Nat → Nat → (Nat → E) → Nat → Nat → E}
    (hread : Reads (Q embeddings (n * w.numDimensions)) read)
    (hk : ctx.kmeans.InRange embeddings n numClusters)
    (hinj : ∀ e < n, ∀ e' < n, mappingIdx (rowIds e) = mappingIdx (rowIds e') → e = e')
    (hlt : ∀ e < n, rowIds e < 2 ^ 32) :
    FaithfulCopy read (Q embeddings (n * w.numDimensions)).encode w.numDimensions n rowIds embeddings
      (fun r => (w.buildInput ctx Q numClusters mappingIdx rowIds embeddings n).build.mapping
        (mappingIdx r))
      (w.builtSearcher ctx (w.buildInput ctx Q numClusters mappingIdx rowIds embeddings n) n) :=
  (builtFrom_buildInput w numClusters mappingIdx).faithfulCopy hread
    (fun c => computeKMeans_assignments ctx.kmeans embeddings n numClusters c)
    (fun _ he => clusterOf_lt hk he) hinj hlt

/-- The rows of one row group have different entries in its metadata. -/
theorem mod_inj_of_getRowGroupId {rowGroupId : Nat}
    (hdistinct : ∀ e < n, ∀ e' < n, rowIds e = rowIds e' → e = e')
    (hgroup : ∀ e < n, getRowGroupId (rowIds e) = rowGroupId) :
    ∀ e < n, ∀ e' < n, rowIds e % defaultRowGroupSize = rowIds e' % defaultRowGroupSize →
      e = e' := by
  intro e he e' he' hmod
  refine hdistinct e he e' he' ?_
  have hdiv : rowIds e / defaultRowGroupSize = rowIds e' / defaultRowGroupSize :=
    (hgroup e he).trans (hgroup e' he').symm
  rw [← Nat.div_add_mod (rowIds e) defaultRowGroupSize, hdiv, hmod, Nat.div_add_mod]

namespace PDXearchWrapperParallel

theorem faithfulCopy_builtRowGroup (w : PDXearchWrapperParallel K E D) {rowGroupId : Nat}
    {read : Nat → Nat → (Nat → E) → Nat → Nat → E}
    (hread : Reads (Q embeddings (n * w.numDimensions)) read)
    (hdistinct : ∀ e < n, ∀ e' < n, rowIds e = rowIds e' → e = e')
    (hgroup : ∀ e < n, getRowGroupId (rowIds e) = rowGroupId) (hlt : ∀ e < n, rowIds e < 2 ^ 32)
    (hk : ctx.kmeans.InRange embeddings n w.numClustersPerRowGroup) :
    FaithfulCopy read (Q embeddings (n * w.numDimensions)).encode w.numDimensions n rowIds embeddings
      (w.builtRowGroup ctx Q rowIds embeddings n).slotOf
      (w.builtRowGroup ctx Q rowIds embeddings n).searcher :=
  faithfulCopy_builtSearcher w.toPDXearchWrapper hread hk
    (mod_inj_of_getRowGroupId hdistinct hgroup) hlt

variable [LinearOrder K] [FloorRing K]

omit [Zero E] in
/-- `SetUpIndexForRowGroup`, F32 and U8, on distinct row ids of one row group. -/
theorem setUpIndexForRowGroup_faithfulCopy (w : PDXearchWrapperParallel K K (ExactFloat K))
    (w' : PDXearchWrapperParallel K UInt8 Nat) (ctx : BuildContext K K) (ctx' : BuildContext K UInt8)
    (maxValue : UInt8) (rowIds : Nat → Nat) (embeddings : Nat → K) (n rowGroupId : Nat)
    (hdistinct : ∀ e < n, ∀ e' < n, rowIds e = rowIds e' → e = e')
    (hgroup : ∀ e < n, getRowGroupId (rowIds e) = rowGroupId) (hlt : ∀ e < n, rowIds e < 2 ^ 32)
    (hk : ctx.kmeans.InRange embeddings n w.numClustersPerRowGroup)
    (hk' : ctx'.kmeans.InRange embeddings n w'.numClustersPerRowGroup) :
    (∃ rowGroup,
      (w.setUpIndexForRowGroup ctx quantizationF32 rowIds embeddings n rowGroupId).rowGroups
        rowGroupId = some rowGroup ∧
      FaithfulCopy readF32 id w.numDimensions n rowIds embeddings rowGroup.slotOf
        rowGroup.searcher) ∧
    ∃ rowGroup,
      (w'.setUpIndexForRowGroup ctx' (quantizationU8 maxValue) rowIds embeddings n
        rowGroupId).rowGroups rowGroupId = some rowGroup ∧
      FaithfulCopy readU8 (quantize maxValue
        (computeQuantizationParams maxValue embeddings (n * w'.numDimensions))) w'.numDimensions n
        rowIds embeddings rowGroup.slotOf rowGroup.searcher := by
  refine ⟨⟨_, Function.update_self _ _ _, ?_⟩, _, Function.update_self _ _ _, ?_⟩
  · exact w.faithfulCopy_builtRowGroup (Q := quantizationF32) f32_reads hdistinct hgroup hlt hk
  · exact w'.faithfulCopy_builtRowGroup (Q := quantizationU8 maxValue) (u8_reads _ _) hdistinct
      hgroup hlt hk'

/-- Three rows of row group 1 in two clusters. -/
theorem setUpIndexForRowGroup_faithfulCopy_three_rows :
    ∃ rowGroup, (setUpIndexForRowGroup (⟨⟨2, false, 0, fun _ => 0⟩, 2, 2, fun _ => none⟩ :
        PDXearchWrapperParallel Rat UInt8 Nat) (.roundRobin Rat UInt8) (quantizationU8 255)
        (fun e => 122885 - e) (fun i => i) 3 1).rowGroups 1 = some rowGroup ∧
      FaithfulCopy readU8 (quantize 255 (computeQuantizationParams 255 (fun i => (i : Rat)) (3 * 2)))
        2 3 (fun e => 122885 - e) (fun i => (i : Rat)) rowGroup.slotOf rowGroup.searcher :=
  (setUpIndexForRowGroup_faithfulCopy ⟨⟨2, false, 0, fun _ => 0⟩, 2, 2, fun _ => none⟩
    ⟨⟨2, false, 0, fun _ => 0⟩, 2, 2, fun _ => none⟩ (.roundRobin Rat Rat) (.roundRobin Rat UInt8)
    255 (fun e => 122885 - e) (fun i => i) 3 1 (by decide) (by decide) (by decide)
    (BuildContext.roundRobin_inRange _ 3 (by decide))
    (BuildContext.roundRobin_inRange _ 3 (by decide))).2

end PDXearchWrapperParallel

end Wrappers

end PDXearch
