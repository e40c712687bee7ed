import PDXearch.Scan.ParallelScan

/-!
# Lossless parallel search

With ratios of at least one the parallel F32 search is exact under every schedule: whatever is
dropped is at least as far away as the vector on top of the heap was, and the top only comes
nearer. `ExactUnderEverySchedule` lists what is proved of the heap in every reachable state and of
the result when all tasks have ended.
-/

namespace PDXearch

open Lib ExactFloat PriorityQueue Client

namespace ParallelScan

variable {K : Type} [Field K] [LinearOrder K] {g : Nat}

/-- All vectors of the probed clusters, with their distances to the query. -/
def probedVectors (scan : ParallelScan K K (ExactFloat K) g) (std : StdSort) :
    Multiset (KNNCandidate K) :=
  ∑ r, ((scan.probedSlots std r).map fun slot =>
    (⟨((scan.searcher std r).pdxData.cluster slot.1).indices slot.2,
      ofReal (squaredDistanceF32 (scan.searcher std r) slot.1 slot.2)⟩ : KNNCandidate K) :
    Multiset (KNNCandidate K))

/-- The search is exact whatever the order of the tasks' lock-protected steps. -/
structure ExactUnderEverySchedule (scan : ParallelScan K K (ExactFloat K) g) (std : StdSort)
    (H : Type) [Heap H K] (arrays : Fin g → ProbeState (ExactFloat K)) : Prop where
  size_le : ∀ {tr p}, Pool.Run (queueObj scan.k) (scan.schedule std H arrays) tr p →
    size p.shared ≤ scan.k
  top_le : ∀ {tr p e q}, Pool.Run (queueObj scan.k) (scan.schedule std H arrays) tr p →
    Pool.Step (queueObj scan.k) p e q → topKey q.shared ≤ topKey p.shared
  sentinel_mem_iff : ∀ {tr p},
    Pool.Run (queueObj scan.k) (scan.schedule std H arrays) tr p →
    (heapInitializationElement K ∈ elems p.shared ↔ (offered tr).length < scan.k)
  progress : ∀ {tr p}, Pool.Run (queueObj scan.k) (scan.schedule std H arrays) tr p →
    p.Finished ∨ ∃ e q, Pool.Step (queueObj scan.k) p e q
  terminates : WellFounded fun q p => ∃ e, Pool.Step (queueObj scan.k)
    (p : Pool H (Fin g) (QueueOp ThresholdRead (KNNCandidate K) Nat)
      (QueueOp.Res (ExactFloat K)) Unit) e q
  result : ∀ {tr p}, Pool.Run (queueObj scan.k) (scan.schedule std H arrays) tr p →
    p.Finished →
    IsKSmallest KNNCandidate.distance scan.k (scan.probedVectors std)
        (scan.finishEvent p.shared) ∧
      (scan.finishEvent p.shared).Pairwise (fun a b => a.distance ≤ b.distance) ∧
      (scan.finishEvent p.shared).length = min scan.k (scan.probedVectors std).card ∧
      ((scan.finishEvent p.shared).map KNNCandidate.index).Nodup ∧
      heapInitializationElement K ∉ scan.finishEvent p.shared

variable [IsStrictOrderedRing K] {scan : ParallelScan K K (ExactFloat K) g} {std : StdSort}

/-- The measure of row group `r`, for its searcher after `InitializeSearch`. -/
def measureF32 (scan : ParallelScan K K (ExactFloat K) g) (std : StdSort)
    (hf32 : ∀ r, (scan.rowGroups.searcher r).pdxData.quantization = Quantization.f32) (r : Fin g) :
    DistanceMeasure (scan.searcher std r) K :=
  DistanceMeasure.f32 (scan.searcher std r) (hf32 r)

omit [IsStrictOrderedRing K] in
theorem candidate_measureF32
    (hf32 : ∀ r, (scan.rowGroups.searcher r).pdxData.quantization = Quantization.f32) (r : Fin g)
    (c i : Nat) :
    (scan.measureF32 std hf32 r).candidate c i =
      ⟨((scan.searcher std r).pdxData.cluster c).indices i,
        ofReal (squaredDistanceF32 (scan.searcher std r) c i)⟩ :=
  candidate_f32 (S := scan.searcher std r) (hf32 r) c i

omit [IsStrictOrderedRing K] in
theorem sum_pending_f32
    (hf32 : ∀ r, (scan.rowGroups.searcher r).pdxData.quantization = Quantization.f32) :
    ∑ r, scan.pending std (scan.measureF32 std hf32) r = scan.probedVectors std := by
  refine Finset.sum_congr rfl fun r _ => ?_
  rw [pending]
  congr 2
  funext slot
  exact candidate_measureF32 hf32 r _ _

omit [IsStrictOrderedRing K] in
theorem lt_top_of_mem_probedVectors {x : KNNCandidate K} (hx : x ∈ scan.probedVectors std) :
    x.distance < ⊤ := by
  obtain ⟨r, -, hx⟩ := Multiset.mem_sum.mp hx
  obtain ⟨slot, -, rfl⟩ := List.mem_map.mp (Multiset.mem_coe.mp hx)
  exact ofReal_lt_top _

/-- The pool of the tasks is accounted: nothing is dropped that is nearer than the top. -/
theorem accounted_f32 (hk : 0 < scan.k)
    (hf32 : ∀ r, (scan.rowGroups.searcher r).pdxData.quantization = Quantization.f32)
    (hlossless : ∀ r, (scan.rowGroups.searcher r).pruner.Lossless) {H : Type} [Heap H K]
    {arrays : Fin g → ProbeState (ExactFloat K)}
    {tr : List (Fin g × Event (QueueOp ThresholdRead (KNNCandidate K) Nat)
      (QueueOp.Res (ExactFloat K)))}
    {p : Pool H (Fin g) (QueueOp ThresholdRead (KNNCandidate K) Nat)
      (QueueOp.Res (ExactFloat K)) Unit}
    (hrun : Pool.Run (queueObj scan.k) (scan.schedule std H arrays) tr p) :
    ∃ pend, Pool.Accounted scan.k (heapInitializationElement K) (fun _ => AnyAnswer)
      (fun _ _ => Settled (fun x t => t ≤ x.distance) 0) (offered tr + 0) pend p ∧
      scan.probedVectors std = offered tr + ∑ r, pend r := by
  have hrule : ∀ r, DropRule (scan.measureF32 std hf32 r) AnyAnswer (fun x t => t ≤ x.distance) :=
    fun r => lossless_f32 (S := scan.searcher std r) (hf32 r)
      (scan.rowGroups.pruner_numDimensions r) (hlossless r)
  have hstart := schedule_accounted (H := H) (scan.measureF32 std hf32) hrule hk (fun r c i => by
    rw [candidate_measureF32 hf32]
    exact ofReal_lt_top _) arrays
  obtain ⟨-, pend, hacc, hsum⟩ := Pool.run_accounted (fun r => (hrule r).stable 0) hstart hrun
    fun _ _ _ _ => trivial
  exact ⟨pend, hacc, sum_pending_f32 hf32 ▸ hsum⟩

/-- What is read off the heap when all tasks have ended. -/
theorem finishEvent_of_finished (hk : 0 < scan.k)
    (hf32 : ∀ r, (scan.rowGroups.searcher r).pdxData.quantization = Quantization.f32)
    (hlossless : ∀ r, (scan.rowGroups.searcher r).pruner.Lossless) {H : Type} [Heap H K]
    {arrays : Fin g → ProbeState (ExactFloat K)}
    {tr : List (Fin g × Event (QueueOp ThresholdRead (KNNCandidate K) Nat)
      (QueueOp.Res (ExactFloat K)))}
    {p : Pool H (Fin g) (QueueOp ThresholdRead (KNNCandidate K) Nat)
      (QueueOp.Res (ExactFloat K)) Unit}
    (hrun : Pool.Run (queueObj scan.k) (scan.schedule std H arrays) tr p) (hfin : p.Finished) :
    IsKSmallest KNNCandidate.distance scan.k (scan.probedVectors std)
        (scan.finishEvent p.shared) ∧
      (scan.finishEvent p.shared).Pairwise fun a b => a.distance ≤ b.distance := by
  obtain ⟨pend, hacc, hsum⟩ := accounted_f32 hk hf32 hlossless hrun
  have hprimed := hacc.settle hfin (fun _ _ B t hpost x hx => by
    obtain ⟨dropped, rfl, hall⟩ := hpost
    exact hall x (by simpa using hx))
  rw [add_zero, add_comm, ← hsum] at hprimed
  exact buildResultSetFromHeap_spec hprimed

omit [IsStrictOrderedRing K] in
/-- With row ids of 32 bits the candidates that are kept have different row ids. -/
theorem nodup_of_smallest {rowId : Fin g → Nat → Nat → Nat}
    (hstores : scan.rowGroups.StoresRowIds rowId)
    (hlt : ∀ r c i, IsSlot (scan.rowGroups.searcher r).pdxData c i → rowId r c i < 2 ^ 32)
    {result : List (KNNCandidate K)}
    (h : IsKSmallest KNNCandidate.distance scan.k (scan.probedVectors std) result) :
    (result.map KNNCandidate.index).Nodup := by
  have hnodup := nodup_indices scan std hstores hlt
    (fun r slot => (⟨((scan.searcher std r).pdxData.cluster slot.1).indices slot.2,
      ofReal (squaredDistanceF32 (scan.searcher std r) slot.1 slot.2)⟩ : KNNCandidate K))
    (fun _ _ _ => rfl)
  exact Multiset.coe_nodup.mp (Multiset.nodup_of_le (Multiset.map_le_map h.le) hnodup)

/-- For row ids of 32 bits. -/
theorem exactUnderEverySchedule (std : StdSort) (scan : ParallelScan K K (ExactFloat K) g)
    (hk : 0 < scan.k)
    (hf32 : ∀ r, (scan.rowGroups.searcher r).pdxData.quantization = Quantization.f32)
    (hlossless : ∀ r, (scan.rowGroups.searcher r).pruner.Lossless)
    {rowId : Fin g → Nat → Nat → Nat} (hstores : scan.rowGroups.StoresRowIds rowId)
    (hlt : ∀ r c i, IsSlot (scan.rowGroups.searcher r).pdxData c i → rowId r c i < 2 ^ 32)
    (H : Type) [Heap H K] (arrays : Fin g → ProbeState (ExactFloat K)) :
    scan.ExactUnderEverySchedule std H arrays := by
  have hrule : ∀ r, DropRule (scan.measureF32 std hf32 r) AnyAnswer (fun x t => t ≤ x.distance) :=
    fun r => lossless_f32 (S := scan.searcher std r) (hf32 r)
      (scan.rowGroups.pruner_numDimensions r) (hlossless r)
  refine ⟨fun hrun => ?_, fun hrun hstep => ?_, fun hrun => ?_, fun {tr p} _ => ?_,
    Pool.wellFounded_step, fun hrun hfin => ?_⟩
  · obtain ⟨pend, hacc, -⟩ := accounted_f32 hk hf32 hlossless hrun
    exact size_eq (H := H) _ ▸ hacc.primed.card_le
  · obtain ⟨pend, hacc, -⟩ := accounted_f32 hk hf32 hlossless hrun
    exact (Pool.step_accounted (fun r => (hrule r).stable 0) hacc hstep fun _ _ _ _ => trivial).1
  · obtain ⟨pend, hacc, -⟩ := accounted_f32 hk hf32 hlossless hrun
    simpa using hacc.primed.sentinel_mem_iff
  · by_cases hfin : p.Finished
    · exact Or.inl hfin
    · exact Or.inr (Pool.exists_step hfin)
  · obtain ⟨hsmallest, hsorted⟩ := finishEvent_of_finished hk hf32 hlossless hrun hfin
    refine ⟨hsmallest, hsorted, hsmallest.card_eq, nodup_of_smallest hstores hlt hsmallest,
      fun hmem => ?_⟩
    exact lt_irrefl _ (lt_top_of_mem_probedVectors (Multiset.mem_of_le hsmallest.le hmem))

/-! ## Sample scans -/

section Samples

variable {g n m : Nat} {rowId : Fin g → Nat → Nat → Nat} {x : Fin g → Nat → Nat → Rat}

/-- Row groups of `n` clusters of `m` vectors of one dimension. -/
def sampleRowGroups (n m : Nat) (rowId : Fin g → Nat → Nat → Nat) (x : Fin g → Nat → Nat → Rat) :
    RowGroups Rat Rat (ExactFloat Rat) g where
  searcher r := Searcher.new ⟨1, 0, fun _ => 1, fun _ => 1⟩
    { numDimensions := 1
      totalNumEmbeddings := n * m
      numClusters := n
      clusters := (List.range n).map fun c => ⟨m, fun i => rowId r c i % 2 ^ 32, x r c⟩
      isNormalized := false
      centroids := fun c => x r c 0
      quantization := Quantization.f32 }
  pruner_numDimensions _ := rfl
  length_clusters _ := by simp [Searcher.new]

theorem cluster_sample (r : Fin g) {c : Nat} (hc : c < n) :
    ((sampleRowGroups n m rowId x).searcher r).pdxData.cluster c =
      ⟨m, fun i => rowId r c i % 2 ^ 32, x r c⟩ := by
  simp [sampleRowGroups, Searcher.new, IndexPDXIVF.cluster, hc]

theorem isSlot_sample {r : Fin g} {c i : Nat} :
    IsSlot ((sampleRowGroups n m rowId x).searcher r).pdxData c i ↔ c < n ∧ i < m := by
  refine and_congr_right fun (hc : c < n) => ?_
  rw [cluster_sample r hc]

/-- The row ids of each row group are in order. -/
theorem storesRowIds_sample (hle : n * m ≤ defaultRowGroupSize) :
    (sampleRowGroups (g := g) n m (fun r c i => defaultRowGroupSize * r + m * c + i) x).StoresRowIds
      fun r c i => defaultRowGroupSize * r + m * c + i :=
  .of_inOrder (fun _ _ _ => isSlot_sample) (fun r c i hc => by rw [cluster_sample r hc]) hle

/-- A scan of such row groups for the vectors nearest to zero, which probes all clusters. -/
def sampleScan (limit n m : Nat) (rowId : Fin g → Nat → Nat → Nat) (x : Fin g → Nat → Nat → Rat) :
    ParallelScan Rat Rat (ExactFloat Rat) g where
  limit := limit
  preprocessedQueryEmbedding := fun _ => 0
  nProbe := 0
  numClustersPerRowGroup := n
  rowGroups := sampleRowGroups n m rowId x

variable {limit : Nat}

theorem mem_probedSlots_sample {r : Fin g} {c i : Nat} :
    (c, i) ∈ (sampleScan limit n m rowId x).probedSlots std r ↔ c < n ∧ i < m := by
  constructor
  · exact fun h => isSlot_sample.mp (mem_probedSlots h)
  · refine fun h => mem_probedSlots_of_all ?_ (isSlot_sample.mpr h)
    rw [numClustersToProbePerRowGroup, if_pos (Or.inl (by rfl))]
    exact le_rfl

theorem distance_sample {r : Fin g} {c : Nat} (hc : c < n) (i : Nat) :
    squaredDistanceF32 ((sampleScan limit n m rowId x).searcher std r) c i = x r c i ^ 2 := by
  have hcluster : ((sampleScan limit n m rowId x).searcher std r).pdxData.cluster c =
      ⟨m, fun i => rowId r c i % 2 ^ 32, x r c⟩ := cluster_sample r hc
  rw [squaredDistanceF32, hcluster]
  refine (Finset.sum_range_one _).trans ?_
  have hread : readF32 ((sampleScan limit n m rowId x).searcher std r).pdxData.numVerticalDimensions
      m (x r c) i 0 = x r c i := by
    rw [readF32, if_pos (by exact one_pos), Nat.zero_mul, Nat.zero_add]
  rw [hread]
  exact (congrArg (· ^ 2) (zero_sub _)).trans (neg_sq _)

theorem vector_sample {r : Fin g} {c : Nat} (hc : c < n) (i : Nat) :
    (⟨(((sampleScan limit n m rowId x).searcher std r).pdxData.cluster c).indices i,
      ofReal (squaredDistanceF32 ((sampleScan limit n m rowId x).searcher std r) c i)⟩ :
        KNNCandidate Rat) = ⟨rowId r c i % 2 ^ 32, ofReal (x r c i ^ 2)⟩ := by
  rw [distance_sample hc]
  refine congrArg (KNNCandidate.mk · _) ?_
  exact congrArg (Cluster.indices · i) (cluster_sample r hc)

/-- The vectors that are probed. -/
theorem mem_probedVectors_sample {v : KNNCandidate Rat} :
    v ∈ (sampleScan limit n m rowId x).probedVectors std ↔
      ∃ r, ∃ c < n, ∃ i < m, ⟨rowId r c i % 2 ^ 32, ofReal (x r c i ^ 2)⟩ = v := by
  rw [probedVectors, Multiset.mem_sum]
  constructor
  · rintro ⟨r, -, hv⟩
    obtain ⟨⟨c, i⟩, hslot, rfl⟩ := List.mem_map.mp (Multiset.mem_coe.mp hv)
    obtain ⟨hc, hi⟩ := mem_probedSlots_sample.mp hslot
    exact ⟨r, c, hc, i, hi, (vector_sample hc i).symm⟩
  · rintro ⟨r, c, hc, i, hi, hv⟩
    refine ⟨r, Finset.mem_univ r, Multiset.mem_coe.mpr (List.mem_map.mpr ⟨(c, i), ?_, ?_⟩)⟩
    · exact mem_probedSlots_sample.mpr ⟨hc, hi⟩
    · exact (vector_sample hc i).trans hv

/-- Vectors of two row groups at distance zero. -/
theorem two_le_countP_sample {r r' : Fin g} (hne : r ≠ r') {c c' i i' : Nat} (hc : c < n)
    (hi : i < m) (hc' : c' < n) (hi' : i' < m) (hx : x r c i = 0) (hx' : x r' c' i' = 0) :
    2 ≤ ((sampleScan limit n m rowId x).probedVectors std).countP fun v => v.distance ≤ ofReal 0 := by
  have hone : ∀ r, ∀ c < n, ∀ i < m, x r c i = 0 →
      1 ≤ ((((sampleScan limit n m rowId x).probedSlots std r).map fun slot =>
        (⟨(((sampleScan limit n m rowId x).searcher std r).pdxData.cluster slot.1).indices slot.2,
          ofReal (squaredDistanceF32 ((sampleScan limit n m rowId x).searcher std r) slot.1 slot.2)⟩ :
            KNNCandidate Rat) : List (KNNCandidate Rat)) : Multiset (KNNCandidate Rat)).countP
              fun v => v.distance ≤ ofReal 0 := by
    intro r c hc i hi hzero
    refine Multiset.countP_pos.mpr ⟨_, Multiset.mem_coe.mpr (List.mem_map_of_mem
      (mem_probedSlots_sample.mpr ⟨hc, hi⟩)), ?_⟩
    rw [distance_sample hc, hzero]
    exact (congrArg ofReal (zero_pow two_ne_zero)).le
  rw [probedVectors, ← Multiset.coe_countPAddMonoidHom, map_sum]
  refine le_trans ?_ (Finset.add_le_sum (fun _ _ => Nat.zero_le _) (Finset.mem_univ r)
    (Finset.mem_univ r') hne)
  exact Nat.add_le_add (hone r c hc i hi hx) (hone r' c' hc' i' hi' hx')

/-- Two vectors at distance zero whose row ids have the same low 32 bits are returned as one row. -/
theorem not_exact_of_sameIndex (low : Nat) (r r' : Fin g) (c c' i i' : Nat) (hne : r ≠ r')
    (hc : c < n) (hi : i < m) (hc' : c' < n) (hi' : i' < m) (hx : x r c i = 0)
    (hx' : x r' c' i' = 0) (hzero : ∀ r c i, x r c i = 0 → rowId r c i % 2 ^ 32 = low)
    (hk : (sampleScan 2 n m rowId x).k = 2) (H : Type) [Heap H Rat]
    (arrays : Fin g → ProbeState (ExactFloat Rat)) :
    ¬ (sampleScan 2 n m rowId x).ExactUnderEverySchedule std H arrays := by
  intro h
  obtain ⟨tr, p, hrun, hfin⟩ := Pool.exists_run_finished (queueObj (sampleScan 2 n m rowId x).k)
    ((sampleScan 2 n m rowId x).schedule std H arrays)
  obtain ⟨hsmallest, -, hlength, hnodup, -⟩ := h.result hrun hfin
  have htwo : 2 ≤ ((sampleScan 2 n m rowId x).probedVectors std).countP fun v =>
      v.distance ≤ ofReal 0 := two_le_countP_sample hne hc hi hc' hi' hx hx'
  rw [hk] at hsmallest hlength
  rw [min_eq_left (htwo.trans (Multiset.countP_le_card _ _))] at hlength
  have hlow : ∀ v ∈ (sampleScan 2 n m rowId x).finishEvent p.shared, v.index = low := by
    intro v hv
    have hle := hsmallest.key_le_of_countP htwo (Multiset.mem_coe.mpr hv)
    obtain ⟨r, c, -, i, -, rfl⟩ := mem_probedVectors_sample.mp
      (Multiset.mem_of_le hsmallest.le (Multiset.mem_coe.mpr hv))
    have hsq : x r c i ^ 2 = 0 := le_antisymm (ofReal_le.mp hle) (sq_nonneg _)
    exact hzero r c i ((pow_eq_zero_iff two_ne_zero).mp hsq)
  match hresult : (sampleScan 2 n m rowId x).finishEvent p.shared with
  | [v, w] =>
    rw [hresult] at hlow hnodup
    have heq := (hlow v (by simp)).trans (hlow w (by simp)).symm
    simp [heq] at hnodup
  | [] | [_] | _ :: _ :: _ :: _ =>
    rw [hresult] at hlength
    simp at hlength

end Samples

/-- Two row groups with two clusters of two vectors each, the three nearest of which are asked
for. -/
def eightVectors : ParallelScan Rat Rat (ExactFloat Rat) 2 :=
  sampleScan 3 2 2 (fun r c i => defaultRowGroupSize * r + 2 * c + i) fun r c i => 3 - r + c - 2 * i

theorem rowIds_eightVectors (r : Fin 2) (c i : Nat)
    (hslot : IsSlot (eightVectors.rowGroups.searcher r).pdxData c i) :
    defaultRowGroupSize * r + 2 * c + i < 2 ^ 32 := by
  obtain ⟨hc, hi⟩ := isSlot_sample.mp hslot
  have hr := r.isLt
  rw [defaultRowGroupSize]
  omega

theorem exactUnderEverySchedule_eightVectors :
    eightVectors.ExactUnderEverySchedule StdSort.insertion
      (SortedQueue (KNNCandidate.distance (K := Rat))) fun _ => .const (ofReal 0) :=
  exactUnderEverySchedule StdSort.insertion eightVectors (by decide) (fun _ => rfl)
    (fun _ _ _ => le_rfl) (storesRowIds_sample (by decide)) rowIds_eightVectors
    (SortedQueue (KNNCandidate.distance (K := Rat))) _

/-- All rows of a table of more than `2 ^ 32` rows. The embedding of rows 5 and `2 ^ 32 + 5` is zero,
and the two rows nearest to it are asked for. -/
def wideRowIds : ParallelScan Rat Rat (ExactFloat Rat) 34953 :=
  sampleScan 2 480 256 (fun r c i => defaultRowGroupSize * r + 256 * c + i) fun r c i =>
    if (defaultRowGroupSize * r + 256 * c + i) % 2 ^ 32 = 5 then 0 else 1

/-- Row `2 ^ 32 + 5` is returned as row 5, which is returned too. -/
theorem not_exactUnderEverySchedule_wideRowIds :
    wideRowIds.rowGroups.StoresRowIds (fun r c i => defaultRowGroupSize * r + 256 * c + i) ∧
      ¬ wideRowIds.ExactUnderEverySchedule StdSort.insertion
        (SortedQueue (KNNCandidate.distance (K := Rat))) fun _ => .const (ofReal 0) := by
  refine ⟨storesRowIds_sample (by decide), not_exact_of_sameIndex 5 0 34952 0 256 5 5 (by decide)
    (by decide) (by decide) (by decide) (by decide) (if_pos (by decide)) (if_pos (by decide))
    (fun r c i hzero => ?_) (by decide) _ _⟩
  by_contra hne
  rw [if_neg hne] at hzero
  exact one_ne_zero hzero

end ParallelScan

end PDXearch
