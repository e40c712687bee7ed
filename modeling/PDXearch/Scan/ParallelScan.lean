import PDXearch.Index.IndexedRows

/-!
# The parallel index scan

`PhysicalPDXearchIndexScan`: one task per row group searches that row group, all tasks share one
heap, and the event that ends when all tasks have ended reads the result off the heap. The tasks
run in parallel; a schedule is a run of the pool of their programs.
-/

namespace PDXearch

open Lib ExactFloat

/-- The searchers of an index's row groups, whose pruners and indexes agree on the dimensions. -/
structure RowGroups (K E D : Type) [Zero E] (g : Nat) where
  searcher : Fin g → Searcher K E D
  pruner_numDimensions : ∀ r, (searcher r).pruner.numDimensions = (searcher r).pdxData.numDimensions
  length_clusters : ∀ r, (searcher r).pdxData.clusters.length = (searcher r).pdxData.numClusters

theorem RowGroups.isSlot {K E D : Type} [Zero E] {g : Nat} (groups : RowGroups K E D g) (r : Fin g)
    {c i : Nat} (hi : i < ((groups.searcher r).pdxData.cluster c).numEmbeddings) :
    IsSlot (groups.searcher r).pdxData c i := by
  refine ⟨?_, hi⟩
  by_contra hc
  rw [IndexPDXIVF.cluster, List.getD_eq_default _ _ (by rw [groups.length_clusters]; omega)] at hi
  exact absurd hi (Nat.not_lt_zero i)

/-- What `SetUpIndexForRowGroup` leaves of the row ids that it is given: different vectors of a row
group have different row ids of that row group, of which the clusters hold the low 32 bits. -/
structure RowGroups.StoresRowIds {K E D : Type} [Zero E] {g : Nat} (groups : RowGroups K E D g)
    (rowId : Fin g → Nat → Nat → Nat) : Prop where
  indices_eq : ∀ r c i, IsSlot (groups.searcher r).pdxData c i →
    ((groups.searcher r).pdxData.cluster c).indices i = rowId r c i % 2 ^ 32
  rowGroup : ∀ r c i, IsSlot (groups.searcher r).pdxData c i → getRowGroupId (rowId r c i) = r
  rowId_inj : ∀ r c i c' i', IsSlot (groups.searcher r).pdxData c i →
    IsSlot (groups.searcher r).pdxData c' i' → rowId r c i = rowId r c' i' → c = c' ∧ i = i'

namespace RowGroups.StoresRowIds

variable {K E D : Type} [Zero E] {g : Nat} {groups : RowGroups K E D g}
  {rowId : Fin g → Nat → Nat → Nat}

/-- The row ids of one row group differ in their low 32 bits. -/
theorem indices_inj_of_rowGroup (h : groups.StoresRowIds rowId) {r : Fin g} {c i c' i' : Nat}
    (hslot : IsSlot (groups.searcher r).pdxData c i)
    (hslot' : IsSlot (groups.searcher r).pdxData c' i')
    (heq : ((groups.searcher r).pdxData.cluster c).indices i =
      ((groups.searcher r).pdxData.cluster c').indices i') : c = c' ∧ i = i' := by
  rw [h.indices_eq r c i hslot, h.indices_eq r c' i' hslot'] at heq
  have hgroup := (h.rowGroup r c i hslot).trans (h.rowGroup r c' i' hslot').symm
  exact h.rowId_inj r c i c' i' hslot hslot' (PDXRowGroup.eq_of_mod_eq hgroup heq)

/-- Row ids of 32 bits are stored as they are. -/
theorem indices_inj (h : groups.StoresRowIds rowId)
    (hlt : ∀ r c i, IsSlot (groups.searcher r).pdxData c i → rowId r c i < 2 ^ 32)
    {r r' : Fin g} {c i c' i' : Nat} (hslot : IsSlot (groups.searcher r).pdxData c i)
    (hslot' : IsSlot (groups.searcher r').pdxData c' i')
    (heq : ((groups.searcher r).pdxData.cluster c).indices i =
      ((groups.searcher r').pdxData.cluster c').indices i') : r = r' ∧ c = c' ∧ i = i' := by
  rw [h.indices_eq r c i hslot, h.indices_eq r' c' i' hslot', Nat.mod_eq_of_lt (hlt r c i hslot),
    Nat.mod_eq_of_lt (hlt r' c' i' hslot')] at heq
  have hgroup := (h.rowGroup r c i hslot).symm.trans (heq ▸ h.rowGroup r' c' i' hslot')
  obtain rfl := Fin.ext hgroup
  exact ⟨rfl, h.rowId_inj r c i c' i' hslot hslot' heq⟩

/-- `m * n` vectors of each row group, laid out in the order of their row ids. -/
theorem of_inOrder {n m : Nat}
    (hslot : ∀ r c i, IsSlot (groups.searcher r).pdxData c i ↔ c < n ∧ i < m)
    (hindices : ∀ r c i, c < n → ((groups.searcher r).pdxData.cluster c).indices i =
      (defaultRowGroupSize * r + m * c + i) % 2 ^ 32)
    (hle : n * m ≤ defaultRowGroupSize) :
    groups.StoresRowIds fun r c i => defaultRowGroupSize * r + m * c + i where
  indices_eq r c i h := hindices r c i ((hslot r c i).mp h).1
  rowGroup r c i h := by
    obtain ⟨hc, hi⟩ := (hslot r c i).mp h
    have hlast : m * c + m ≤ n * m := by
      rw [← Nat.mul_succ, Nat.mul_comm]
      exact Nat.mul_le_mul_right m hc
    rw [getRowGroupId, Nat.add_assoc, Nat.mul_add_div (by decide), Nat.div_eq_of_lt (by omega),
      Nat.add_zero]
  rowId_inj r c i c' i' h h' heq := by
    obtain ⟨-, hi⟩ := (hslot r c i).mp h
    obtain ⟨-, hi'⟩ := (hslot r c' i').mp h'
    have heq' : m * c + i = m * c' + i' := by omega
    have hm : 0 < m := by omega
    have hdiv := congrArg (· / m) heq'
    have hmod := congrArg (· % m) heq'
    simp only [Nat.mul_add_div hm, Nat.mul_add_mod, Nat.div_eq_of_lt hi, Nat.div_eq_of_lt hi',
      Nat.mod_eq_of_lt hi, Nat.mod_eq_of_lt hi'] at hdiv hmod
    exact ⟨by omega, hmod⟩

end RowGroups.StoresRowIds

/-- `PDXearchScanGlobalSourceState`; `limit` is an `idx_t`. -/
structure ParallelScan (K E D : Type) [Zero E] (g : Nat) where
  limit : Nat
  preprocessedQueryEmbedding : Nat → K
  nProbe : Nat
  numClustersPerRowGroup : Nat
  rowGroups : RowGroups K E D g

namespace ParallelScan

section Definitions

variable {K E D : Type} [Zero E] {g : Nat} (scan : ParallelScan K E D g)

/-- The limit as the `uint32_t` that `InitializeSearch` and `BuildResultSetFromHeap` take. -/
def k : Nat := scan.limit % 2 ^ 32

theorem k_eq {scan : ParallelScan K E D g} (hlimit : scan.limit < 2 ^ 32) : scan.k = scan.limit :=
  Nat.mod_eq_of_lt hlimit

def numClustersToProbePerRowGroup : Nat :=
  if scan.nProbe = 0 ∨ scan.numClustersPerRowGroup < scan.nProbe then scan.numClustersPerRowGroup
  else scan.nProbe

variable [Field K] [LinearOrder K] (std : StdSort)

/-- `InitializeSearchForRowGroup` -/
def searcher (r : Fin g) : Searcher K E D :=
  (scan.rowGroups.searcher r).initializeSearch std scan.preprocessedQueryEmbedding scan.k none

variable [LinearOrder D]

/-- `PDXearchScanSearchTask`; `arrays` holds the arrays that its search allocates. -/
def task (arrays : Fin g → ProbeState D) (r : Fin g) : SearchProgram K Unit :=
  (scan.searcher std r).search scan.numClustersToProbePerRowGroup (arrays r)

/-- `PDXearchScanSearchEvent::Schedule` with the heap that the state was created with. -/
def schedule (H : Type) [Heap H K] (arrays : Fin g → ProbeState D) :
    Pool H (Fin g) (QueueOp ThresholdRead (KNNCandidate K) Nat) (QueueOp.Res (ExactFloat K)) Unit :=
  ⟨initialHeap H, scan.task std arrays⟩

/-- `PDXearchScanSearchEvent::FinishEvent` -/
def finishEvent {H : Type} [Heap H K] (heap : H) : List (KNNCandidate K) :=
  buildResultSetFromHeap scan.k heap

omit [LinearOrder D] in
/-- The slots of the clusters that the task of row group `r` probes. -/
def probedSlots (r : Fin g) : List (Nat × Nat) :=
  ((scan.searcher std r).searchClusters scan.numClustersToProbePerRowGroup).flatMap fun c =>
    (List.range ((scan.searcher std r).pdxData.cluster c).numEmbeddings).map fun i => (c, i)

end Definitions

section Slots

variable {K E D : Type} [Zero E] [Field K] [LinearOrder K] {g : Nat} {scan : ParallelScan K E D g}
  {std : StdSort}

theorem mem_probedSlots {r : Fin g} {c i : Nat} (h : (c, i) ∈ scan.probedSlots std r) :
    IsSlot (scan.searcher std r).pdxData c i := by
  obtain ⟨c', hc', hi⟩ := List.mem_flatMap.mp h
  obtain ⟨i', hi', heq⟩ := List.mem_map.mp hi
  obtain ⟨rfl, rfl⟩ := Prod.mk.inj heq
  refine ⟨?_, List.mem_range.mp hi'⟩
  exact List.mem_range.mp ((Searcher.getClustersAccessOrderIVF_perm _ _ _ _).mem_iff.mp
    (List.mem_of_mem_take hc'))

/-- Every slot of a row group all of whose clusters are probed. -/
theorem mem_probedSlots_of_all {r : Fin g}
    (hall : (scan.rowGroups.searcher r).pdxData.numClusters ≤ scan.numClustersToProbePerRowGroup)
    {c i : Nat} (hslot : IsSlot (scan.rowGroups.searcher r).pdxData c i) :
    (c, i) ∈ scan.probedSlots std r := by
  have hperm := Searcher.getClustersAccessOrderIVF_perm std scan.preprocessedQueryEmbedding
    (scan.rowGroups.searcher r).pdxData (scan.rowGroups.searcher r).pdxData.numClusters
  refine List.mem_flatMap.mpr ⟨c, ?_, List.mem_map.mpr ⟨i, List.mem_range.mpr hslot.2, rfl⟩⟩
  have htake : (scan.searcher std r).searchClusters scan.numClustersToProbePerRowGroup =
      Searcher.getClustersAccessOrderIVF std scan.preprocessedQueryEmbedding
        (scan.rowGroups.searcher r).pdxData (scan.rowGroups.searcher r).pdxData.numClusters := by
    refine List.take_of_length_le ?_
    change (Searcher.getClustersAccessOrderIVF _ _ _ _).length ≤
      min _ (scan.rowGroups.searcher r).pdxData.numClusters
    rw [hperm.length_eq, List.length_range]
    exact le_min hall le_rfl
  rw [htake]
  exact hperm.mem_iff.mpr (List.mem_range.mpr hslot.1)

theorem nodup_probedSlots (r : Fin g) : (scan.probedSlots std r).Nodup := by
  have hnodup : ((scan.searcher std r).searchClusters scan.numClustersToProbePerRowGroup).Nodup :=
    ((Searcher.getClustersAccessOrderIVF_perm _ _ _ _).nodup_iff.mpr List.nodup_range).sublist
      (List.take_sublist _ _)
  exact nodup_flatMap_map hnodup (fun _ _ => List.nodup_range) fun _ _ _ _ _ _ _ _ heq =>
    Prod.mk.inj heq

/-- Different probed slots hold different row ids, if these have 32 bits. -/
theorem nodup_indices (scan : ParallelScan K E D g) (std : StdSort)
    {rowId : Fin g → Nat → Nat → Nat} (hstores : scan.rowGroups.StoresRowIds rowId)
    (hlt : ∀ r c i, IsSlot (scan.rowGroups.searcher r).pdxData c i → rowId r c i < 2 ^ 32)
    (f : Fin g → Nat × Nat → KNNCandidate K)
    (hf : ∀ r c i, (f r (c, i)).index = ((scan.searcher std r).pdxData.cluster c).indices i) :
    ((∑ r, ((scan.probedSlots std r).map (f r) : Multiset (KNNCandidate K))).map
      KNNCandidate.index).Nodup := by
  change (((Finset.univ : Finset (Fin g)).val.bind fun r =>
    ((scan.probedSlots std r).map (f r) : Multiset (KNNCandidate K))).map
      KNNCandidate.index).Nodup
  rw [Multiset.map_bind, Multiset.nodup_bind]
  have hinj : ∀ r r' c i c' i', (c, i) ∈ scan.probedSlots std r →
      (c', i') ∈ scan.probedSlots std r' → (f r (c, i)).index = (f r' (c', i')).index →
      r = r' ∧ c = c' ∧ i = i' := by
    intro r r' c i c' i' hmem hmem' heq
    rw [hf, hf] at heq
    exact hstores.indices_inj hlt (mem_probedSlots hmem) (mem_probedSlots hmem') heq
  constructor
  · intro r _
    rw [Multiset.map_coe, List.map_map, Multiset.coe_nodup]
    refine (List.nodup_map_iff_inj_on (nodup_probedSlots r)).mpr ?_
    rintro ⟨c, i⟩ hmem ⟨c', i'⟩ hmem' heq
    obtain ⟨-, rfl, rfl⟩ := hinj r r c i c' i' hmem hmem' heq
    rfl
  · refine Multiset.Nodup.pairwise (fun r _ r' _ hne => ?_) Finset.univ.nodup
    refine Multiset.disjoint_left.mpr fun {x} hx hx' => ?_
    obtain ⟨y, hy, rfl⟩ := Multiset.mem_map.mp hx
    obtain ⟨⟨c, i⟩, hmem, rfl⟩ := List.mem_map.mp (Multiset.mem_coe.mp hy)
    obtain ⟨y', hy', heq⟩ := Multiset.mem_map.mp hx'
    obtain ⟨⟨c', i'⟩, hmem', rfl⟩ := List.mem_map.mp (Multiset.mem_coe.mp hy')
    exact hne (hinj r r' c i c' i' hmem hmem' heq.symm).1

end Slots

section Accounts

variable {K E D M : Type} [Zero E] [Field K] [LinearOrder K] [LinearOrder D] [AddCommMonoid M]
  {g : Nat} {scan : ParallelScan K E D g} {std : StdSort} {H : Type} [Heap H K]
  {Ok : Fin g → ThresholdRead → ExactFloat K → Prop}
  {P : KNNCandidate K → ExactFloat K → Prop}

/-- The candidates that the task of row group `r` answers for. -/
def pending (scan : ParallelScan K E D g) (std : StdSort)
    (μ : ∀ r, DistanceMeasure (scan.searcher std r) M) (r : Fin g) : Multiset (KNNCandidate K) :=
  ((scan.probedSlots std r).map fun slot => (μ r).candidate slot.1 slot.2)

omit [LinearOrder D] in
theorem pending_eq (μ : ∀ r, DistanceMeasure (scan.searcher std r) M) (r : Fin g) :
    scan.pending std μ r = (((scan.searcher std r).searchClusters
      scan.numClustersToProbePerRowGroup).flatMap fun c => (μ r).candidates c none) := by
  rw [pending, probedSlots, List.map_flatMap]
  congr 2
  funext c
  rw [DistanceMeasure.candidates_none, List.map_map]
  rfl

theorem schedule_accounted (μ : ∀ r, DistanceMeasure (scan.searcher std r) M)
    (hP : ∀ r, DropRule (μ r) (Ok r) P) (hk : 0 < scan.k)
    (hfinite : ∀ r c i, ((μ r).candidate c i).distance < ⊤) (arrays : Fin g → ProbeState D) :
    Pool.Accounted scan.k (heapInitializationElement K) Ok (fun _ _ => Settled P 0) 0
      (scan.pending std μ) (scan.schedule std H arrays) where
  primed := primed_initialHeap hk
  lt_top r x hx := by
    obtain ⟨slot, -, rfl⟩ := List.mem_map.mp (Multiset.mem_coe.mp hx)
    exact hfinite r _ _
  accounts r := by
    rw [pending_eq]
    exact (hP r).search_accounts _ _ _

end Accounts

end ParallelScan

end PDXearch
