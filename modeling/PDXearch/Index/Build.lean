import PDXearch.Kernel.Searcher

/-!
# Building the clusters of an index

The part that `SetUpIndexForRowGroup` and `SetUpGlobalIndex` share: the assignment of embeddings to
clusters and the loop that stores each cluster's row ids and embeddings and records for every row
id its cluster and position. The k-means library is a parameter; what is assumed of it is that it
assigns every embedding to one of the clusters.
-/

namespace PDXearch

open Lib

/-- The library `SuperKMeans`, with its configuration. -/
structure SuperKMeans (K : Type) where
  train : (Nat → K) → Nat → Nat → Nat → K
  assign : (Nat → K) → (Nat → K) → Nat → Nat → Nat → Nat

/-- `KMeansResult` -/
structure KMeansResult (K : Type) where
  centroids : Nat → K
  assignments : Nat → List Nat

/-- The loop that turns an assignment of embeddings into the clusters' lists of embeddings. -/
def groupByCluster (numEmbeddings : Nat) (assignments : Nat → Nat) : Nat → List Nat :=
  (List.range numEmbeddings).foldl (fun result vecId =>
    Function.update result (assignments vecId) (result (assignments vecId) ++ [vecId]))
    fun _ => []

/-- `ComputeKMeans` -/
def computeKMeans {K : Type} (kmeans : SuperKMeans K) (embeddings : Nat → K)
    (numEmbeddings numClusters : Nat) : KMeansResult K :=
  if numClusters = 1 then ⟨embeddings, groupByCluster numEmbeddings fun _ => 0⟩
  else
    let centroids := kmeans.train embeddings numEmbeddings numClusters
    ⟨centroids,
      groupByCluster numEmbeddings (kmeans.assign embeddings centroids numEmbeddings numClusters)⟩

/-- The cluster that `ComputeKMeans` puts an embedding into. -/
def clusterOf {K : Type} (kmeans : SuperKMeans K) (embeddings : Nat → K)
    (numEmbeddings numClusters : Nat) : Nat → Nat :=
  if numClusters = 1 then fun _ => 0
  else kmeans.assign embeddings (kmeans.train embeddings numEmbeddings numClusters) numEmbeddings
    numClusters

/-- What is assumed of the library: the clusters exist. -/
def SuperKMeans.InRange {K : Type} (kmeans : SuperKMeans K) (embeddings : Nat → K)
    (numEmbeddings numClusters : Nat) : Prop :=
  ∀ e < numEmbeddings, kmeans.assign embeddings
    (kmeans.train embeddings numEmbeddings numClusters) numEmbeddings numClusters e < numClusters

theorem groupByCluster_eq (n : Nat) (f : Nat → Nat) (c : Nat) :
    groupByCluster n f c = (List.range n).filter fun e => f e = c := by
  refine foldl_range_induction
    (P := fun (t : Nat) (result : Nat → List Nat) =>
      ∀ c, result c = (List.range t).filter fun e => f e = c)
    (fun c => rfl) ?_ c
  intro t result _ hresult c
  rw [List.range_succ, List.filter_append]
  by_cases hc : f t = c
  · subst hc
    simp [hresult]
  · rw [Function.update_of_ne (Ne.symm hc), hresult]
    simp [hc]

theorem computeKMeans_assignments {K : Type} (kmeans : SuperKMeans K) (embeddings : Nat → K)
    (n numClusters c : Nat) :
    (computeKMeans kmeans embeddings n numClusters).assignments c =
      (List.range n).filter fun e => clusterOf kmeans embeddings n numClusters e = c := by
  rw [computeKMeans, clusterOf]
  split_ifs
  · exact groupByCluster_eq _ _ _
  · exact groupByCluster_eq _ _ _

theorem clusterOf_lt {K : Type} {kmeans : SuperKMeans K} {embeddings : Nat → K}
    {n numClusters : Nat} (hk : kmeans.InRange embeddings n numClusters) {e : Nat} (he : e < n) :
    clusterOf kmeans embeddings n numClusters e < numClusters := by
  rw [clusterOf]
  split_ifs with hone
  · exact hone ▸ Nat.one_pos
  · exact hk e he

/-! ## The slots of an assignment -/

section Assignment

/-- `assignments[c][p]` -/
def embeddingAt (assignments : Nat → List Nat) (c p : Nat) : Nat := (assignments c).getD p 0

variable {n : Nat} {f : Nat → Nat} {assignments : Nat → List Nat}
  (ha : ∀ c, assignments c = (List.range n).filter fun e => f e = c)

include ha in
theorem embeddingAt_mem {c p : Nat} (hp : p < (assignments c).length) :
    embeddingAt assignments c p < n ∧ f (embeddingAt assignments c p) = c := by
  have hmem : embeddingAt assignments c p ∈ assignments c := by
    rw [embeddingAt, List.getD_eq_getElem _ _ hp]
    exact List.getElem_mem hp
  rw [ha] at hmem
  simpa using hmem

include ha in
theorem exists_embeddingAt {e : Nat} (he : e < n) :
    ∃ p < (assignments (f e)).length, embeddingAt assignments (f e) p = e := by
  have hmem : e ∈ assignments (f e) := by
    rw [ha]
    simpa using he
  obtain ⟨p, hp, heq⟩ := List.getElem_of_mem hmem
  exact ⟨p, hp, by rw [embeddingAt, List.getD_eq_getElem _ _ hp, heq]⟩

include ha in
theorem embeddingAt_inj {c p p' : Nat} (hp : p < (assignments c).length)
    (hp' : p' < (assignments c).length)
    (h : embeddingAt assignments c p = embeddingAt assignments c p') : p = p' := by
  have hnodup : (assignments c).Nodup := by
    rw [ha]
    exact List.nodup_range.filter _
  rw [embeddingAt, embeddingAt, List.getD_eq_getElem _ _ hp, List.getD_eq_getElem _ _ hp'] at h
  exact (hnodup.getElem_inj_iff).mp h

end Assignment

/-! ## The loop over the clusters -/

/-- `RowIdClusterMapping` -/
@[ext] structure RowIdClusterMapping where
  clusterId : Nat
  indexInCluster : Nat
  deriving DecidableEq

/-- What the loop over the clusters builds up. -/
structure BuildState (E : Type) where
  mapping : Nat → RowIdClusterMapping
  clusters : List (Cluster E)
  tmpClusterEmbeddings : Nat → E

/-- What the loop over the clusters reads. A row id's mapping is kept at `mappingIdx`; `memory` is
what the allocated arrays of a cluster hold before they are written. -/
structure BuildInput (K E D : Type) where
  quantization : Quantization K E D
  numDimensions : Nat
  numClusters : Nat
  mappingIdx : Nat → Nat
  rowIds : Nat → Nat
  embeddings : Nat → K
  assignments : Nat → List Nat
  memory : Nat → Cluster E

namespace BuildInput

variable {K E D : Type} (b : BuildInput K E D)

/-- The positions loop of cluster `c`: its stores to the mapping, -/
def mappingStores (c : Nat) : List (Nat × RowIdClusterMapping) :=
  (List.range (b.assignments c).length).map fun p =>
    (b.mappingIdx (b.rowIds (embeddingAt b.assignments c p)), ⟨c, p⟩)

/-- to the cluster's row ids, which are 32-bit, -/
def indicesStores (c : Nat) : List (Nat × Nat) :=
  (List.range (b.assignments c).length).map fun p =>
    (p, b.rowIds (embeddingAt b.assignments c p) % 2 ^ 32)

/-- and to the buffer that gathers the cluster's embeddings row by row. -/
def gatherStores (c : Nat) : List (Nat × E) :=
  matrixStores 0 (b.assignments c).length b.numDimensions fun p d =>
    b.quantization.encode (b.embeddings (embeddingAt b.assignments c p * b.numDimensions + d))

/-- The stores of `StoreClusterEmbeddings` for cluster `c`, which reads the gathered embeddings. -/
def clusterStores (c : Nat) (tmpClusterEmbeddings : Nat → E) : List (Nat × E) :=
  b.quantization.storeClusterEmbeddings (getPDXDimensionSplit b.numDimensions).verticalDimensions
    (getPDXDimensionSplit b.numDimensions).horizontalDimensions (b.assignments c).length
    (inputAt b.numDimensions tmpClusterEmbeddings)

/-- Cluster `c`, stored from the gathered embeddings. -/
def builtCluster (c : Nat) (tmpClusterEmbeddings : Nat → E) : Cluster E where
  numEmbeddings := (b.assignments c).length
  indices := store (b.indicesStores c) (b.memory c).indices
  data := store (b.clusterStores c tmpClusterEmbeddings) (b.memory c).data

/-- One iteration of the loop over the clusters. -/
def addCluster (s : BuildState E) (c : Nat) : BuildState E :=
  let tmpClusterEmbeddings := store (b.gatherStores c) s.tmpClusterEmbeddings
  { mapping := store (b.mappingStores c) s.mapping
    clusters := s.clusters ++ [b.builtCluster c tmpClusterEmbeddings]
    tmpClusterEmbeddings := tmpClusterEmbeddings }

/-- The loop; the mapping and the gathering buffer are zero-initialised. -/
def build [Zero E] : BuildState E :=
  (List.range b.numClusters).foldl b.addCluster ⟨fun _ => ⟨0, 0⟩, [], fun _ => 0⟩

variable {b}

/-- What a gathered row holds. -/
theorem inputAt_gather {c p d : Nat} (tmp : Nat → E) (hp : p < (b.assignments c).length)
    (hd : d < b.numDimensions) :
    inputAt b.numDimensions (store (b.gatherStores c) tmp) p d =
      b.quantization.encode
        (b.embeddings (embeddingAt b.assignments c p * b.numDimensions + d)) := by
  refine store_of_mem tmp ?_ ?_
  · rw [gatherStores, matrixStores_cells]
    exact List.nodup_range'
  · have hmem := mem_matrixStores 0 (fun p d => b.quantization.encode
      (b.embeddings (embeddingAt b.assignments c p * b.numDimensions + d))) hp hd
    rwa [Nat.zero_add] at hmem

theorem indices_builtCluster {c p : Nat} (tmp : Nat → E) (hp : p < (b.assignments c).length) :
    (b.builtCluster c tmp).indices p = b.rowIds (embeddingAt b.assignments c p) % 2 ^ 32 := by
  refine store_of_mem _ ?_ (List.mem_map.mpr ⟨p, List.mem_range.mpr hp, rfl⟩)
  rw [indicesStores, List.map_map]
  exact (List.map_id _).symm ▸ List.nodup_range

theorem build_spec [Zero E] :
    b.build.clusters.length = b.numClusters ∧
      b.build.mapping =
        store ((List.range b.numClusters).flatMap b.mappingStores) (fun _ => ⟨0, 0⟩) ∧
      ∀ c < b.numClusters, ∃ tmp,
        b.build.clusters.getD c default = b.builtCluster c (store (b.gatherStores c) tmp) := by
  refine foldl_range_induction (P := fun (t : Nat) (s : BuildState E) => s.clusters.length = t ∧
    s.mapping = store ((List.range t).flatMap b.mappingStores) (fun _ => ⟨0, 0⟩) ∧
    ∀ c < t, ∃ tmp, s.clusters.getD c default = b.builtCluster c (store (b.gatherStores c) tmp))
    ⟨rfl, rfl, fun c hc => absurd hc (Nat.not_lt_zero c)⟩ ?_
  rintro t s - ⟨hlen, hmapping, hclusters⟩
  refine ⟨by simp [addCluster, hlen], ?_, fun c hc => ?_⟩
  · rw [List.range_succ, List.flatMap_append, List.flatMap_singleton]
    simp [addCluster, hmapping, store, List.foldl_append]
  · by_cases hct : c = t
    · refine ⟨s.tmpClusterEmbeddings, ?_⟩
      rw [hct, ← hlen]
      simp [addCluster]
    · obtain ⟨tmp, htmp⟩ := hclusters c (by omega)
      exact ⟨tmp, (List.getD_append _ _ _ _ (by omega)).trans htmp⟩

section Mapping

variable {n : Nat} {f : Nat → Nat}
  (ha : ∀ c, b.assignments c = (List.range n).filter fun e => f e = c)
  (hinj : ∀ e < n, ∀ e' < n, b.mappingIdx (b.rowIds e) = b.mappingIdx (b.rowIds e') → e = e')

include ha hinj in
/-- No entry of the mapping is written twice. -/
theorem nodup_mappingStores :
    (((List.range b.numClusters).flatMap b.mappingStores).map Prod.fst).Nodup := by
  simp only [List.map_flatMap, mappingStores, List.map_map]
  refine nodup_flatMap_map List.nodup_range (fun _ _ => List.nodup_range)
    fun c _ p hp c' _ p' hp' heq => ?_
  rw [List.mem_range] at hp hp'
  have hmem := embeddingAt_mem ha hp
  have hmem' := embeddingAt_mem ha hp'
  have hsame := hinj _ hmem.1 _ hmem'.1 heq
  obtain rfl : c = c' := by rw [← hmem.2, ← hmem'.2, hsame]
  exact ⟨rfl, embeddingAt_inj ha hp hp' hsame⟩

variable [Zero E]

include ha hinj in
theorem mapping_build {c p : Nat} (hc : c < b.numClusters) (hp : p < (b.assignments c).length) :
    b.build.mapping (b.mappingIdx (b.rowIds (embeddingAt b.assignments c p))) = ⟨c, p⟩ := by
  rw [build_spec.2.1]
  refine store_of_mem _ (nodup_mappingStores ha hinj) ?_
  exact List.mem_flatMap.mpr ⟨c, List.mem_range.mpr hc,
    List.mem_map.mpr ⟨p, List.mem_range.mpr hp, rfl⟩⟩

include ha in
/-- An entry that belongs to no row id of the index keeps its default. -/
theorem mapping_build_default {x : Nat} (hx : ∀ e < n, b.mappingIdx (b.rowIds e) ≠ x) :
    b.build.mapping x = ⟨0, 0⟩ := by
  rw [build_spec.2.1]
  refine store_of_not_mem _ fun hmem => ?_
  rw [List.map_flatMap] at hmem
  obtain ⟨c, -, hmem⟩ := List.mem_flatMap.mp hmem
  simp only [mappingStores, List.map_map, List.mem_map, List.mem_range] at hmem
  obtain ⟨p, hp, heq⟩ := hmem
  exact hx _ (embeddingAt_mem ha hp).1 heq

end Mapping

end BuildInput

end PDXearch
