import PDXearch.Index.IndexedRows

/-!
# Distances of rows

An F32 index stores every row's embedding as it was given, so that the candidate for the slot of a
row has the row's low 32 bits and the squared distance of its embedding. The candidates of the
slots that a list of rows selects are hence those of these rows.
-/

namespace PDXearch

open Lib ExactFloat

section Rows

variable {K : Type} [Field K]

/-- The embedding that a row was given to the index with. -/
def embeddingOf (rows : Nat → Option (EmbeddingBuffer K)) (numDimensions rowId : Nat) : Nat → K :=
  match rows (getRowGroupId rowId) with
  | none => fun _ => 0
  | some buffer =>
    match (List.range buffer.count).find? fun e => buffer.rowIds e = rowId with
    | none => fun _ => 0
    | some e => fun d => buffer.embeddings (e * numDimensions + d)

/-- The squared distance of a row to the query. -/
def rowDistance (rows : Nat → Option (EmbeddingBuffer K)) (numDimensions : Nat) (query : Nat → K)
    (rowId : Nat) : K :=
  ∑ d ∈ Finset.range numDimensions, (query d - embeddingOf rows numDimensions rowId d) ^ 2

/-- The candidate that a search offers for a row. -/
def rowCandidate (rows : Nat → Option (EmbeddingBuffer K)) (numDimensions : Nat) (query : Nat → K)
    (rowId : Nat) : KNNCandidate K :=
  ⟨rowId % 2 ^ 32, ofReal (rowDistance rows numDimensions query rowId)⟩

variable {rows : Nat → Option (EmbeddingBuffer K)} {numDimensions : Nat}

theorem embeddingOf_rowIds {buffer : EmbeddingBuffer K} {e : Nat} (he : e < buffer.count)
    (hbuffer : buffer ∈ rows (getRowGroupId (buffer.rowIds e)))
    (hdistinct : ∀ e < buffer.count, ∀ e' < buffer.count,
      buffer.rowIds e = buffer.rowIds e' → e = e') :
    embeddingOf rows numDimensions (buffer.rowIds e) =
      fun d => buffer.embeddings (e * numDimensions + d) := by
  have hfind : (List.range buffer.count).find? (fun e' => buffer.rowIds e' = buffer.rowIds e) =
      some e := by
    match hfound : (List.range buffer.count).find? fun e' => buffer.rowIds e' = buffer.rowIds e with
    | none =>
      have hnone := List.find?_eq_none.mp hfound e (List.mem_range.mpr he)
      simp at hnone
    | some e' =>
      have heq := List.find?_some hfound
      have hlt := List.mem_range.mp (List.mem_of_find?_eq_some hfound)
      rw [hdistinct e' hlt e he (of_decide_eq_true heq)]
  rw [embeddingOf, Option.mem_def.mp hbuffer]
  simp only [hfind]

end Rows

section Order

variable {K : Type} [Field K] [LinearOrder K] {rows : Nat → Option (EmbeddingBuffer K)}
  {numDimensions : Nat} {query : Nat → K}

omit [Field K] in
/-- Candidates that have the low 32 bits of a row id and a distance of the row, in order: they are the
nearest ones exactly if they are made for the nearest rows. -/
theorem nearest_candidates_iff {distance : Nat → K} {R : List Nat} (hlt : ∀ r ∈ R, r < 2 ^ 32)
    {k : Nat} {nearest : List (KNNCandidate K)}
    (hmem : ∀ x ∈ nearest, x ∈ R.map fun r => ⟨r % 2 ^ 32, ofReal (distance r)⟩) :
    IsKSmallest (KNNCandidate.distance (K := K)) k
        (R.map fun r => (⟨r % 2 ^ 32, ofReal (distance r)⟩ : KNNCandidate K)) nearest ∧
      nearest.Pairwise (fun a b => a.distance ≤ b.distance) ↔
    IsKSmallest distance k R (nearest.map KNNCandidate.index) ∧
      (nearest.map KNNCandidate.index).Pairwise fun r r' => distance r ≤ distance r' := by
  have hindex : ∀ r ∈ (R : Multiset Nat),
      (⟨r % 2 ^ 32, ofReal (distance r)⟩ : KNNCandidate K).index = r := fun r hr =>
    Nat.mod_eq_of_lt (hlt r (Multiset.mem_coe.mp hr))
  have hkey : ∀ x ∈ nearest, x.distance = ofReal (distance x.index) := by
    intro x hx
    obtain ⟨r, hr, rfl⟩ := List.mem_map.mp (hmem x hx)
    rw [hindex r (Multiset.mem_coe.mpr hr)]
  refine and_congr ?_ ?_
  · rw [← Multiset.map_coe, ← Multiset.map_coe,
      IsKSmallest.map_iff hindex fun x hx => by
        rw [Multiset.map_coe]
        exact Multiset.mem_coe.mpr (hmem x (Multiset.mem_coe.mp hx))]
    exact ⟨fun h => h.congr_key fun _ _ _ _ hle => ofReal_le.mp hle,
      fun h => h.congr_key fun _ _ _ _ hle => ofReal_le.mpr hle⟩
  · rw [List.pairwise_map]
    refine ⟨fun h => h.imp_of_mem fun hx hy hle => ?_, fun h => h.imp_of_mem fun hx hy hle => ?_⟩
    · rwa [hkey _ hx, hkey _ hy, ofReal_le] at hle
    · rwa [hkey _ hx, hkey _ hy, ofReal_le]

/-- The nearest candidates of some rows are made for the nearest of these rows. -/
theorem isKSmallest_rows {R : List Nat} (hlt : ∀ r ∈ R, r < 2 ^ 32) {k : Nat}
    {nearest : List (KNNCandidate K)}
    (h : IsKSmallest (KNNCandidate.distance (K := K)) k
      (R.map (rowCandidate rows numDimensions query)) nearest)
    (hsorted : nearest.Pairwise fun a b => a.distance ≤ b.distance) :
    IsKSmallest (rowDistance rows numDimensions query) k R (nearest.map KNNCandidate.index) ∧
      (nearest.map KNNCandidate.index).Pairwise fun r r' =>
        rowDistance rows numDimensions query r ≤ rowDistance rows numDimensions query r' :=
  (nearest_candidates_iff hlt fun _ hx => Multiset.mem_coe.mp
    (Multiset.mem_of_le h.le (Multiset.mem_coe.mpr hx))).mp ⟨h, hsorted⟩

end Order

/-- The row's vector is in one of the first `numClusters` clusters that a search of its row group
probes. -/
def PDXearchWrapperParallel.isProbed {K E D : Type} [Zero E] [Field K] [LinearOrder K]
    (w : PDXearchWrapperParallel K E D) (std : StdSort) (query : Nat → K)
    (numClusters rowId : Nat) : Bool :=
  (w.rowGroups (getRowGroupId rowId)).any fun rowGroup =>
    (rowGroup.slotOf rowId).clusterId ∈ (Searcher.getClustersAccessOrderIVF std query
      rowGroup.searcher.pdxData rowGroup.searcher.pdxData.numClusters).take numClusters

section Slots

variable {K : Type} [Field K] [LinearOrder K]

namespace PDXearchWrapperParallel

omit [LinearOrder K] in
/-- What is stored in the slot of a row. -/
theorem SetUpWith.stored_slotOf {E D : Type} [Zero E] {w : PDXearchWrapperParallel K E D}
    {ctx : BuildContext K E} {Q : QuantizationOf K E D} {rows : Nat → Option (EmbeddingBuffer K)}
    (h : w.SetUpWith ctx Q rows) {rowId : Nat} (hrow : IsRowOf rows rowId)
    {rowGroup : PDXRowGroup K E D} (hrowGroup : rowGroup ∈ w.rowGroups (getRowGroupId rowId))
    {read : Nat → Nat → (Nat → E) → Nat → Nat → E}
    (hread : ∀ embeddings n, Reads (Q embeddings n) read) :
    IsSlot rowGroup.searcher.pdxData (rowGroup.slotOf rowId).clusterId
        (rowGroup.slotOf rowId).indexInCluster ∧
      (rowGroup.searcher.pdxData.cluster (rowGroup.slotOf rowId).clusterId).indices
        (rowGroup.slotOf rowId).indexInCluster = rowId % 2 ^ 32 ∧
      ∀ d < w.numDimensions, read rowGroup.searcher.pdxData.numVerticalDimensions
          (rowGroup.searcher.pdxData.cluster (rowGroup.slotOf rowId).clusterId).numEmbeddings
          (rowGroup.searcher.pdxData.cluster (rowGroup.slotOf rowId).clusterId).data
          (rowGroup.slotOf rowId).indexInCluster d =
        rowGroup.searcher.pdxData.quantization.encode
          (embeddingOf rows w.numDimensions rowId d) := by
  obtain ⟨buffer, hbuffer, e, he, rfl⟩ := hrow
  obtain ⟨buffer', hbuffer', hsame⟩ := h.exists_buffer hrowGroup
  obtain rfl := Option.some.inj (hbuffer.symm.trans hbuffer')
  have hgroup := h.isRowGroup _ buffer hbuffer
  have hbuilt : BuiltFrom _ (w.builtRowGroup ctx Q buffer.rowIds buffer.embeddings
      buffer.count).searcher := builtFrom_buildInput w.toPDXearchWrapper w.numClustersPerRowGroup
    (· % defaultRowGroupSize)
  obtain ⟨p, hslot, hat, hmapping⟩ := hbuilt.slot_of_row
    (fun c => computeKMeans_assignments ctx.kmeans buffer.embeddings buffer.count _ c)
    (fun _ he => clusterOf_lt hgroup.inRange he)
    (mod_inj_of_getRowGroupId hgroup.distinct hgroup.getRowGroupId_eq) he
  have hslotOf : rowGroup.slotOf (buffer.rowIds e) =
      ⟨clusterOf ctx.kmeans buffer.embeddings buffer.count w.numClustersPerRowGroup e, p⟩ := by
    rw [PDXRowGroup.slotOf, hsame.rowIdMetadata_eq]
    exact hmapping
  rw [hslotOf, hsame.pdxData_eq, embeddingOf_rowIds he hbuffer hgroup.distinct]
  refine ⟨hslot, ?_, fun d hd => ?_⟩
  · exact (hbuilt.indices_eq hslot).trans (congrArg (fun e => buffer.rowIds e % 2 ^ 32) hat)
  · have hstored := hbuilt.readBack (hread _ _) hslot hd
    rwa [hat] at hstored

/-- The slot of a row holds its embedding. -/
theorem SetUpWith.vectorF32_slotOf {w : PDXearchWrapperParallel K K (ExactFloat K)}
    {ctx : BuildContext K K} {rows : Nat → Option (EmbeddingBuffer K)}
    (h : w.SetUpWith ctx quantizationF32 rows) {rowId : Nat} (hrow : IsRowOf rows rowId)
    {rowGroup : PDXRowGroup K K (ExactFloat K)}
    (hrowGroup : rowGroup ∈ w.rowGroups (getRowGroupId rowId))
    {S : Searcher K K (ExactFloat K)} (hS : S.pdxData = rowGroup.searcher.pdxData) :
    vectorF32 S (rowGroup.slotOf rowId).clusterId (rowGroup.slotOf rowId).indexInCluster =
      rowCandidate rows w.numDimensions S.preparedQuery rowId := by
  obtain ⟨-, hindex, hstored⟩ := h.stored_slotOf hrow hrowGroup (fun _ _ => f32_reads)
  obtain ⟨buffer, -, hsame⟩ := h.exists_buffer hrowGroup
  have hdims : rowGroup.searcher.pdxData.numDimensions = w.numDimensions :=
    congrArg IndexPDXIVF.numDimensions hsame.pdxData_eq
  have hf32 : rowGroup.searcher.pdxData.quantization = Quantization.f32 :=
    congrArg IndexPDXIVF.quantization hsame.pdxData_eq
  rw [vectorF32, squaredDistanceF32, hS, rowCandidate, rowDistance, hdims]
  refine KNNCandidate.ext hindex (congrArg ofReal (Finset.sum_congr rfl fun d hd => ?_))
  rw [hstored d (Finset.mem_range.mp hd), hf32]
  rfl

/-- The access order has every cluster, hence every row. -/
theorem SetUpWith.isProbed_of_le {E D : Type} [Zero E] {w : PDXearchWrapperParallel K E D}
    {ctx : BuildContext K E} {Q : QuantizationOf K E D} {rows : Nat → Option (EmbeddingBuffer K)}
    (h : w.SetUpWith ctx Q rows) {std : StdSort} {query : Nat → K} {r n : Nat} (hr : IsRowOf rows r)
    (hn : w.numClustersPerRowGroup ≤ n) : w.isProbed std query n r = true := by
  obtain ⟨rowGroup, hrowGroup, hslot, -⟩ := h.isIndexed hr
  have hset := h.consistent _ _ hrowGroup
  have hperm := Searcher.getClustersAccessOrderIVF_perm std query rowGroup.searcher.pdxData
    rowGroup.searcher.pdxData.numClusters
  rw [isProbed, Option.mem_def.mp hrowGroup, Option.any_some, decide_eq_true_eq,
    List.take_of_length_le (by rwa [hperm.length_eq, List.length_range, hset.numClusters_eq])]
  exact hperm.mem_iff.mpr (List.mem_range.mpr hslot.1)

end PDXearchWrapperParallel

omit [Field K] [LinearOrder K] in
/-- The selected slots of some clusters are those of the rows that are there. -/
theorem PDXRowGroup.selectedSlots_perm {E D : Type} [Zero E] {rowGroup : PDXRowGroup K E D}
    {passing order : List Nat} {numClusters : Nat} (h : rowGroup.Consistent numClusters)
    (hheld : ∀ r ∈ passing, rowGroup.Holds r) (hnodup : passing.Nodup)
    (hgroup : ∀ r ∈ passing, ∀ r' ∈ passing, getRowGroupId r = getRowGroupId r')
    (horder : order.Nodup) (hlt : ∀ c ∈ order, c < numClusters) :
    (order.flatMap fun c => (DistanceMeasure.selectedSlots rowGroup.searcher c
      (some (rowGroup.searcher.selection (createPredicateEvaluatorForRowGroup passing rowGroup)
        c))).map (Prod.mk c)).Perm
      ((passing.filter fun r => (rowGroup.slotOf r).clusterId ∈ order).map fun r =>
        ((rowGroup.slotOf r).clusterId, (rowGroup.slotOf r).indexInCluster)) := by
  refine (List.perm_ext_iff_of_nodup ?_ ?_).mpr fun slot => ?_
  · exact nodup_flatMap_map horder (fun _ _ => List.nodup_range.filter _)
      fun c _ p _ c' _ p' _ heq => Prod.mk.inj heq
  · refine (List.nodup_map_iff_inj_on (hnodup.filter _)).mpr fun r hr r' hr' heq => ?_
    have hmem := (List.mem_filter.mp hr).1
    have hmem' := (List.mem_filter.mp hr').1
    obtain ⟨hc, hp⟩ := Prod.mk.inj heq
    have hmod := (hheld r hmem).2
    rw [hc, hp, (hheld r' hmem').2] at hmod
    exact eq_of_mod_eq (hgroup r hmem r' hmem') hmod.symm
  · obtain ⟨c, p⟩ := slot
    rw [List.mem_flatMap, List.mem_map]
    constructor
    · rintro ⟨c', hc', hmem⟩
      obtain ⟨p', hp', heq⟩ := List.mem_map.mp hmem
      obtain ⟨rfl, rfl⟩ := Prod.mk.inj heq
      obtain ⟨r, hr, hslot⟩ := (mem_selectedSlots_iff h hheld (hlt _ hc')).mp hp'
      refine ⟨r, List.mem_filter.mpr ⟨hr, ?_⟩, ?_⟩
      · simpa [hslot] using hc'
      · rw [hslot]
    · rintro ⟨r, hr, heq⟩
      obtain ⟨hr, hc⟩ := List.mem_filter.mp hr
      obtain ⟨rfl, rfl⟩ := Prod.mk.inj heq
      have hc : (rowGroup.slotOf r).clusterId ∈ order := of_decide_eq_true hc
      refine ⟨_, hc, List.mem_map.mpr ⟨_, ?_, rfl⟩⟩
      exact (mem_selectedSlots_iff h hheld (hlt _ hc)).mpr ⟨r, hr, rfl⟩

end Slots

end PDXearch
