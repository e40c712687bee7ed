import PDXearch.Scan.LosslessScan

/-!
# An exact match in the parallel index scan

A row whose stored embedding equals the prepared query is at distance zero. If no threshold read
drops it from below a top that is farther away, the nearest candidate returned is at distance zero,
whatever the schedule. F32 thresholds never do; a U8 threshold does where it is truncated to zero.

The scale of a row group can be so small that even the greatest `float` is truncated to zero. So the
heap starts here with that number as the distance of its first entry, not with a distance that is
above all numbers, and distances beyond it are possible.
-/

namespace PDXearch

open Lib ExactFloat PriorityQueue

namespace ParallelScan

section FloatMax

variable {K : Type} [Field K]

/-- `std::numeric_limits<float>::max()` -/
def floatMax (K : Type) [Field K] : K := (((2 ^ 24 - 1) * 2 ^ 104 : Nat) : K)

theorem floatMax_pos [LinearOrder K] [IsStrictOrderedRing K] : 0 < floatMax K :=
  Nat.cast_pos.mpr (by decide)

variable [LinearOrder K]

/-- The heap with `HEAP_INITIALIZATION_ELEMENT` in it. -/
def numberedInitialHeap (H : Type) [Heap H K] : H :=
  push ⟨1337, ofReal (floatMax K)⟩ PriorityQueue.empty

/-- `BuildResultSetFromHeap` -/
def numberedResultSet {H : Type} [Heap H K] (k : Nat) (heap : H) : List (KNNCandidate K) :=
  let heap := match top? heap with
    | none => heap
    | some top => if top.distance = ofReal (floatMax K) then pop heap else heap
  drain (min (size heap) k) heap

/-- What `BuildResultSetFromHeap` returns first. -/
theorem head_numberedResultSet [IsStrictOrderedRing K] {H : Type} [Heap H K] {k : Nat} {heap : H}
    (hsize : (elems heap).card ≤ k) (hnonneg : ∀ x ∈ elems heap, ofReal 0 ≤ x.distance)
    {x : KNNCandidate K} (hx : x ∈ elems heap) (hzero : x.distance ≤ ofReal 0) :
    ∃ y, (numberedResultSet k heap : List (KNNCandidate K)).head? = some y ∧
      y.distance = ofReal 0 := by
  -- the entry that is removed is not at distance zero
  have hpopped : ∃ heap' : H, numberedResultSet k heap = drain (min (size heap') k) heap' ∧
      elems heap' ≤ elems heap ∧ x ∈ elems heap' := by
    obtain ⟨top, htop⟩ := exists_top? (h := heap) fun h0 => Multiset.notMem_zero x (h0 ▸ hx)
    simp only [numberedResultSet, htop]
    have hpop := elems_pop heap top htop
    split
    · rename_i hmax
      refine ⟨_, rfl, hpop ▸ Multiset.le_cons_self _ top, ?_⟩
      rcases Multiset.mem_cons.mp (hpop ▸ hx) with rfl | hx
      · exact absurd (ofReal_le.mp (hmax ▸ hzero)) (not_le.mpr floatMax_pos)
      · exact hx
    · exact ⟨_, rfl, le_rfl, hx⟩
  obtain ⟨heap', hresult, hle, hx⟩ := hpopped
  rw [hresult]
  have hsize' : size heap' ≤ k := size_eq (H := H) heap' ▸ (Multiset.card_le_card hle).trans hsize
  obtain ⟨helems, hsorted⟩ := drain_all (min_eq_left hsize')
  have hcard := (Multiset.card_le_card hle).trans hsize
  have hkept : IsKSmallest KNNCandidate.distance k (elems heap')
      (drain (min (size heap') k) heap') := by
    rw [helems]
    exact IsKSmallest.self hcard
  have hpos : 0 < k := (Multiset.card_pos_iff_exists_mem.mpr ⟨x, hx⟩).trans_le hcard
  obtain ⟨y, hhead, hy, hyx⟩ := hkept.head_le hpos hsorted hx
  exact ⟨y, hhead, le_antisymm (hyx.trans hzero) (hnonneg y (Multiset.mem_of_le hle hy))⟩

end FloatMax

section Definitions

variable {K E D : Type} [Zero E] [Field K] [LinearOrder K] [LinearOrder D] {g : Nat}
  (scan : ParallelScan K E D g) (std : StdSort)

/-- `PDXearchScanSearchEvent::Schedule` -/
def numberedSchedule (H : Type) [Heap H K] (arrays : Fin g → ProbeState D) :
    Pool H (Fin g) (QueueOp ThresholdRead (KNNCandidate K) Nat) (QueueOp.Res (ExactFloat K)) Unit :=
  ⟨numberedInitialHeap H, scan.task std arrays⟩

/-- Whenever the stored embedding of a row equals the prepared query of its row group, and all
clusters are probed, the nearest candidate returned is at distance zero, in every finished run in
which the thresholds by which vectors of the row's cluster could be dropped were `Ok`. -/
def ExactMatchFound (H : Type) [Heap H K] (read : Nat → Nat → (Nat → E) → Nat → Nat → E)
    (Ok : Fin g → Nat → ExactFloat K → Prop) : Prop :=
  (∀ r, (scan.rowGroups.searcher r).pdxData.numClusters ≤ scan.numClustersToProbePerRowGroup) →
  ∀ r c i, IsSlot (scan.rowGroups.searcher r).pdxData c i →
  (∀ d < (scan.rowGroups.searcher r).pdxData.numDimensions,
    (scan.searcher std r).preparedQuery d =
      read (scan.rowGroups.searcher r).pdxData.numVerticalDimensions
        ((scan.rowGroups.searcher r).pdxData.cluster c).numEmbeddings
        ((scan.rowGroups.searcher r).pdxData.cluster c).data i d) →
  ∀ (arrays : Fin g → ProbeState D)
    (tr : List (Fin g × Client.Event (QueueOp ThresholdRead (KNNCandidate K) Nat)
      (QueueOp.Res (ExactFloat K))))
    (p : Pool H (Fin g) (QueueOp ThresholdRead (KNNCandidate K) Nat)
      (QueueOp.Res (ExactFloat K)) Unit),
  Pool.Run (queueObj scan.k) (scan.numberedSchedule std H arrays) tr p → p.Finished →
  (∀ idx t, (r, ⟨.look ⟨c, idx⟩, t⟩) ∈ tr → (scan.searcher std r).MayDrop none idx → Ok r idx t) →
  ∃ y, (numberedResultSet scan.k p.shared : List (KNNCandidate K)).head? = some y ∧
    y.distance = ofReal 0

end Definitions

section General

variable {K E D M : Type} [Zero E] [Field K] [LinearOrder K] [IsStrictOrderedRing K] [LinearOrder D]
  [AddCommMonoid M] {g : Nat} {scan : ParallelScan K E D g} {std : StdSort} {H : Type} [Heap H K]
  {Ok : Fin g → ThresholdRead → ExactFloat K → Prop} {arrays : Fin g → ProbeState D}
  {tr : List (Fin g × Client.Event (QueueOp ThresholdRead (KNNCandidate K) Nat)
    (QueueOp.Res (ExactFloat K)))}
  {p : Pool H (Fin g) (QueueOp ThresholdRead (KNNCandidate K) Nat)
    (QueueOp.Res (ExactFloat K)) Unit}

omit [IsStrictOrderedRing K] in
/-- What is offered are candidates. -/
theorem exists_candidate_of_offered (μ : ∀ r, DistanceMeasure (scan.searcher std r) M)
    (hrun : Pool.Run (queueObj scan.k) (scan.numberedSchedule std H arrays) tr p)
    {x : KNNCandidate K} (hx : x ∈ offered tr) : ∃ r c i, (μ r).candidate c i = x := by
  obtain ⟨r, tr', _, hruns, hmem⟩ := Pool.exists_runs_offers hrun hx
  obtain ⟨_, tr₁, tr₂, rfl, hclusters, hdone⟩ := Client.runs_bind_iff.mp hruns
  obtain ⟨rfl, -⟩ := Client.runs_done_iff.mp hdone
  rw [List.append_nil] at hmem
  obtain ⟨c, -, hcandidate⟩ := probeClusters_offers (μ r) hclusters x hmem
  obtain ⟨i, -, -, heq⟩ := (μ r).mem_candidates.mp hcandidate
  exact ⟨r, c, i, heq⟩

/-- A candidate at distance zero: it is offered, or dropped from below a top at distance zero.
The least distance in the heap is zero from then on. -/
theorem head_of_exactMatch (μ : ∀ r, DistanceMeasure (scan.searcher std r) M)
    (hnonneg : ∀ r c i, ofReal 0 ≤ ((μ r).candidate c i).distance) (hk : 0 < scan.k) {r : Fin g}
    {c i : Nat} (hslot : (c, i) ∈ scan.probedSlots std r)
    (hzero : ((μ r).candidate c i).distance = ofReal 0)
    (hP : ∀ r', DropRule (μ r') (Ok r') fun x t => r' = r → x = (μ r).candidate c i → t ≤ ofReal 0)
    (hrun : Pool.Run (queueObj scan.k) (scan.numberedSchedule std H arrays) tr p)
    (hfin : p.Finished) (hanswers : Answers
      (fun r' read t => (scan.searcher std r').MayDrop none read.currentDimensionIdx → Ok r' read t)
      tr) :
    ∃ y, (numberedResultSet scan.k p.shared : List (KNNCandidate K)).head? = some y ∧
      y.distance = ofReal 0 := by
  have hshared := Pool.run_shared hrun
  have hleast : leastKey p.shared ≤ ofReal 0 := by
    obtain ⟨pend, hacc, hsum⟩ := Pool.run_levelled leastKey_le_topKey
      (fun cs heap => (leastKey_offerAll_le hk cs heap).1) (fun r' => (hP r').stable 0)
      (fun r' => (hP r').search_accounts_of_mayDrop scan.numClustersToProbePerRowGroup (arrays r')
        (leastKey (numberedInitialHeap H))) hrun hanswers
    have hpending : (μ r).candidate c i ∈ scan.pending std μ r :=
      Multiset.mem_coe.mpr (List.mem_map.mpr ⟨(c, i), hslot, rfl⟩)
    rw [pending_eq] at hpending
    have hmem := Multiset.mem_of_le (hsum r) hpending
    rcases Multiset.mem_add.mp hmem with hoffered | hpend
    · rw [hshared, ← hzero]
      exact (leastKey_offerAll_le hk (offered tr) _).2 _ (Multiset.mem_coe.mp hoffered)
    · obtain ⟨a, ha⟩ := hfin r
      have hdone := ha ▸ hacc r
      cases hdone with
      | done hpost =>
        obtain ⟨dropped, heq, hall⟩ := hpost
        rw [heq, add_zero] at hpend
        exact hall _ hpend rfl rfl
  obtain ⟨x, hx, hle⟩ := exists_key_le (ofReal_lt_top 0) hleast
  obtain ⟨hfrom, hcard⟩ := offerAll_le hk (offered tr) (numberedInitialHeap (K := K) H)
  have hinitial : elems (numberedInitialHeap (K := K) H) = {⟨1337, ofReal (floatMax K)⟩} := by
    rw [numberedInitialHeap, elems_push, elems_empty]
    rfl
  refine head_numberedResultSet ?_ (fun y hy => ?_) hx hle
  · rw [hshared]
    exact hcard (hinitial ▸ hk)
  · rw [hshared] at hy
    rcases Multiset.mem_add.mp (Multiset.mem_of_le hfrom hy) with hy | hy
    · obtain ⟨r', c', i', rfl⟩ := exists_candidate_of_offered μ hrun (Multiset.mem_coe.mp hy)
      exact hnonneg r' c' i'
    · rw [hinitial, Multiset.mem_singleton] at hy
      exact hy ▸ ofReal_le.mpr floatMax_pos.le

end General

variable {K : Type} [Field K] [LinearOrder K] [IsStrictOrderedRing K] {g : Nat}

theorem exactMatchFound_f32 (std : StdSort) (scan : ParallelScan K K (ExactFloat K) g)
    (hk : 0 < scan.k)
    (hf32 : ∀ r, (scan.rowGroups.searcher r).pdxData.quantization = Quantization.f32)
    (hpositive : ∀ r, (scan.rowGroups.searcher r).pruner.Positive) (H : Type) [Heap H K] :
    scan.ExactMatchFound std H readF32 fun _ _ _ => True := by
  intro hall r c i hslot hmatch arrays tr p hrun hfin _
  have hzero : squaredDistanceF32 (scan.searcher std r) c i = 0 := by
    refine Finset.sum_eq_zero fun d hd => ?_
    rw [hmatch d (Finset.mem_range.mp hd)]
    exact (congrArg (· ^ 2) (sub_self _)).trans (zero_pow two_ne_zero)
  have hdistance : ∀ r c i, ((scan.measureF32 std hf32 r).candidate c i).distance =
      ofReal (squaredDistanceF32 (scan.searcher std r) c i) := fun r c i => by
    rw [candidate_measureF32]
  have hx : ((scan.measureF32 std hf32 r).candidate c i).distance = ofReal 0 :=
    (hdistance r c i).trans (congrArg ofReal hzero)
  refine head_of_exactMatch (scan.measureF32 std hf32) (fun r c i => ?_) hk
    (mem_probedSlots_of_all (hall r) hslot) hx (fun r' => .of_imp fun _ =>
      exact_f32 (S := scan.searcher std r') (hf32 r') (scan.rowGroups.pruner_numDimensions r')
        (hpositive r') hx) hrun hfin fun _ _ _ _ _ => trivial
  rw [hdistance]
  exact ofReal_le.mpr (squaredDistanceF32_nonneg _ _ _)

theorem exactMatchFound_u8 [FloorRing K] (std : StdSort) (scan : ParallelScan K UInt8 Nat g)
    (hk : 0 < scan.k) (maxValue : UInt8) (params : Fin g → ScalarQuantizationParams K)
    (hu8 : ∀ r, (scan.rowGroups.searcher r).pdxData.quantization =
      Quantization.u8 maxValue (params r))
    (hdims : ∀ r, (scan.rowGroups.searcher r).pdxData.numDimensions ≤ pdxMaxDims)
    {rowId : Fin g → Nat → Nat → Nat} (hstores : scan.rowGroups.StoresRowIds rowId)
    (H : Type) [Heap H K] :
    scan.ExactMatchFound std H readU8 fun r idx t =>
      NotTruncated (scan.rowGroups.searcher r) (params r) t idx := by
  intro hall r c i hslot hmatch arrays tr p hrun hfin hok
  have hzero : squaredDistanceU8 (scan.searcher std r) c i = 0 := by
    refine Finset.sum_eq_zero fun d hd => ?_
    rw [hmatch d (Finset.mem_range.mp hd)]
    simp [sqDiff, Searcher.initializeSearch, searcher]
  let μ := fun r => DistanceMeasure.u8 (scan.searcher std r) maxValue (params r) (hu8 r) (hdims r)
  have hdistance : ∀ r c i, ((μ r).candidate c i).distance =
      ofReal ((squaredDistanceU8 (scan.searcher std r) c i : K) *
        (1 / ((params r).quantizationScale * (params r).quantizationScale))) := fun r c i => by
    rw [← slotDistance_u8 (S := scan.searcher std r) (hu8 r) (hdims r)]
    exact candidate_u8_distance (S := scan.searcher std r) (hu8 r) (hdims r) c i
  have hrule : ∀ r', DropRule (μ r') (fun read t => r' = r → read.clusterIdx = c →
      NotTruncated (scan.searcher std r') (params r') t read.currentDimensionIdx)
      (fun x t => r' = r → x = (μ r).candidate c i → t ≤ ofReal 0) := by
    refine fun r' => .of_imp ?_
    rintro rfl
    refine exact_u8 (S := scan.searcher std r') (hu8 r') (hdims r') fun c' i' hi' hcandidate => ?_
    -- no other vector of the row group has the same row id
    obtain ⟨rfl, rfl⟩ := hstores.indices_inj_of_rowGroup (scan.rowGroups.isSlot r' hi') hslot
      (congrArg KNNCandidate.index hcandidate)
    exact ⟨hzero, fun idx t h => h rfl rfl⟩
  refine head_of_exactMatch μ (fun r c i => ?_) hk (mem_probedSlots_of_all (hall r) hslot) ?_ hrule
    hrun hfin ?_
  · rw [hdistance]
    exact ofReal_le.mpr (mul_nonneg (Nat.cast_nonneg _) (one_div_nonneg.mpr (mul_self_nonneg _)))
  · rw [hdistance, hzero, Nat.cast_zero, zero_mul]
  · rintro r' ⟨c', idx⟩ t hmem hdrop rfl rfl
    exact hok idx t hmem hdrop

/-- In F32 always; in U8 in the runs in which no threshold by which vectors of the row's cluster could
be dropped is truncated to zero. -/
theorem exactMatchFound [FloorRing K] (std : StdSort) (H : Type) [Heap H K] (maxValue : UInt8)
    (scan : ParallelScan K K (ExactFloat K) g) (hk : 0 < scan.k)
    (hf32 : ∀ r, (scan.rowGroups.searcher r).pdxData.quantization = Quantization.f32)
    (hpositive : ∀ r, (scan.rowGroups.searcher r).pruner.Positive) {g' : Nat}
    (scan' : ParallelScan K UInt8 Nat g') (hk' : 0 < scan'.k)
    (params : Fin g' → ScalarQuantizationParams K)
    (hu8 : ∀ r, (scan'.rowGroups.searcher r).pdxData.quantization =
      Quantization.u8 maxValue (params r))
    (hdims : ∀ r, (scan'.rowGroups.searcher r).pdxData.numDimensions ≤ pdxMaxDims)
    {rowId : Fin g' → Nat → Nat → Nat} (hstores : scan'.rowGroups.StoresRowIds rowId) :
    (scan.ExactMatchFound std H readF32 fun _ _ _ => True) ∧
      scan'.ExactMatchFound std H readU8 fun r idx t =>
        NotTruncated (scan'.rowGroups.searcher r) (params r) t idx :=
  ⟨exactMatchFound_f32 std scan hk hf32 hpositive H,
    exactMatchFound_u8 std scan' hk' maxValue params hu8 hdims hstores H⟩

/-! ## Two row groups -/

section TwoRowGroups

/-- Two row groups of `n` clusters of `m` quantized vectors of one dimension; the `limit` nearest
neighbours of `query` are asked for. -/
def twoRowGroups (limit n m : Nat) (query : Rat) (params : Fin 2 → ScalarQuantizationParams Rat)
    (x : Fin 2 → Nat → Nat → UInt8) : ParallelScan Rat UInt8 Nat 2 where
  limit := limit
  preprocessedQueryEmbedding := fun _ => query
  nProbe := 0
  numClustersPerRowGroup := n
  rowGroups :=
    { searcher := fun r => Searcher.new (ADSamplingPruner.new id 1 fun _ => 1)
        { numDimensions := 1
          totalNumEmbeddings := n * m
          numClusters := n
          clusters := (List.range n).map fun c =>
            ⟨m, fun i => (defaultRowGroupSize * r + m * c + i) % 2 ^ 32, x r c⟩
          isNormalized := false
          centroids := fun _ => 0
          quantization := Quantization.u8 255 (params r) }
      pruner_numDimensions := fun _ => rfl
      length_clusters := fun _ => by simp [Searcher.new] }

variable {limit n m : Nat} {query : Rat} {params : Fin 2 → ScalarQuantizationParams Rat}
  {x : Fin 2 → Nat → Nat → UInt8}

theorem storesRowIds_twoRowGroups (hle : n * m ≤ defaultRowGroupSize) :
    (twoRowGroups limit n m query params x).rowGroups.StoresRowIds
      fun r c i => defaultRowGroupSize * r + m * c + i := by
  have hcluster : ∀ (r : Fin 2) (c : Nat), c < n →
      ((twoRowGroups limit n m query params x).rowGroups.searcher r).pdxData.cluster c =
        ⟨m, fun i => (defaultRowGroupSize * r + m * c + i) % 2 ^ 32, x r c⟩ := fun r c hc => by
    simp [twoRowGroups, Searcher.new, IndexPDXIVF.cluster, hc]
  refine .of_inOrder (fun r c i => ?_) (fun r c i hc => by rw [hcluster r c hc]) hle
  refine and_congr_right fun (hc : c < n) => ?_
  rw [hcluster r c hc]

/-- The trace and the state when task 0 has run to its end, then task 1. -/
def runInOrder (scan : ParallelScan Rat UInt8 Nat 2) :
    List (Fin 2 × Client.Event (QueueOp ThresholdRead (KNNCandidate Rat) Nat)
      (QueueOp.Res (ExactFloat Rat))) ×
    Pool (SortedQueue (KNNCandidate.distance (K := Rat))) (Fin 2)
      (QueueOp ThresholdRead (KNNCandidate Rat) Nat) (QueueOp.Res (ExactFloat Rat)) Unit :=
  let p := scan.numberedSchedule StdSort.insertion
    (SortedQueue (KNNCandidate.distance (K := Rat))) fun _ => .const 0
  let first := (p.task 0).exec (queueObj scan.k) p.shared
  let second := (p.task 1).exec (queueObj scan.k) first.2.1
  (first.1.map (fun e => (0, e)) ++ second.1.map fun e => (1, e),
    ⟨second.2.1, Function.update (Function.update p.task 0 (.done ())) 1 (.done ())⟩)

theorem run_runInOrder (scan : ParallelScan Rat UInt8 Nat 2) :
    Pool.Run (queueObj scan.k) (scan.numberedSchedule StdSort.insertion
      (SortedQueue (KNNCandidate.distance (K := Rat))) fun _ => .const 0) (runInOrder scan).1
        (runInOrder scan).2 :=
  (Pool.run_exec _ 0).trans (Pool.run_exec _ 1)

theorem finished_runInOrder (scan : ParallelScan Rat UInt8 Nat 2) : (runInOrder scan).2.Finished :=
  Fin.forall_fin_two.mpr ⟨⟨(), rfl⟩, (), rfl⟩

/-- The answer of row group 0 is at distance `16 / 65025`, of which each threshold read in the row
group of the match makes 16. -/
def equalScales : ParallelScan Rat UInt8 Nat 2 :=
  twoRowGroups 2 2 2 0 (fun _ => ⟨0, 255⟩) fun r c i =>
    ((([[[1, 9], [4, 200]], [[8, 255], [0, 3]]] : List (List (List UInt8))).getD r []).getD c
      []).getD i 0

theorem notTruncated_equalScales (idx : Nat) (t : ExactFloat Rat)
    (hmem : (1, ⟨.look ⟨1, idx⟩, t⟩) ∈ (runInOrder equalScales).1)
    (hdrop : (equalScales.searcher StdSort.insertion 1).MayDrop none idx) :
    NotTruncated (equalScales.rowGroups.searcher 1) ⟨0, 255⟩ t idx := by
  have hreads : (runInOrder equalScales).1.all (fun e => match e with
      | (r, ⟨.look read, t⟩) => decide (r = 1 → read.clusterIdx = 1 →
          read.currentDimensionIdx ≤ 1 ∧ t = ofReal (16 / 65025))
      | _ => true) = true := by
    decide +kernel
  obtain ⟨hidx, rfl⟩ := of_decide_eq_true (List.all_eq_true.mp hreads _ hmem) rfl rfl
  obtain rfl : idx = 1 := le_antisymm hidx (hdrop rfl (by decide) (by decide +kernel))
  exact ⟨16 / 65025, rfl, Or.inr (by decide +kernel)⟩

/-- A finished run in which row 122882, the match, is found. -/
theorem exactMatchFound_equalScales :
    (eightVectors.ExactMatchFound StdSort.insertion
      (SortedQueue (KNNCandidate.distance (K := Rat))) readF32 fun _ _ _ => True) ∧
    ∃ tr p, Pool.Run (queueObj equalScales.k) (equalScales.numberedSchedule StdSort.insertion
        (SortedQueue (KNNCandidate.distance (K := Rat))) fun _ => .const 0) tr p ∧ p.Finished ∧
      ∃ y, (numberedResultSet equalScales.k p.shared : List (KNNCandidate Rat)).head? = some y ∧
        y.distance = ofReal 0 :=
  have hfound := exactMatchFound StdSort.insertion
    (SortedQueue (KNNCandidate.distance (K := Rat))) 255 eightVectors (by decide) (fun _ => rfl)
    (fun _ _ _ => one_pos) equalScales (by decide) (fun _ => ⟨0, 255⟩) (fun _ => rfl)
    (fun _ => (by decide : 1 ≤ pdxMaxDims)) (storesRowIds_twoRowGroups (by decide))
  ⟨hfound.1, (runInOrder equalScales).1, (runInOrder equalScales).2, run_runInOrder equalScales,
    finished_runInOrder equalScales, hfound.2 (by decide) 1 1 0 ⟨by decide, by decide⟩
      (by decide +kernel) _ _ _ (run_runInOrder equalScales) (finished_runInOrder equalScales)
      notTruncated_equalScales⟩

/-- Row group 0 of embeddings `0` and `1`, row group 1 of `0` and `255`, each with the parameters
that `ComputeQuantizationParams` gives it; the nearest neighbour of `1 / 255` is asked for. -/
def unequalScales : ParallelScan Rat UInt8 Nat 2 :=
  twoRowGroups 1 1 2 (1 / 255) (fun r => if r = 0 then ⟨0, 255⟩ else ⟨0, 1⟩) fun _ _ i =>
    if i = 0 then 0 else 255

/-- A match in row group 1 that is not found when task 0 runs first. -/
theorem not_exactMatchFound_of_runInOrder {scan : ParallelScan Rat UInt8 Nat 2}
    (hall : ∀ r, (scan.rowGroups.searcher r).pdxData.numClusters ≤ scan.numClustersToProbePerRowGroup)
    (hslot : IsSlot (scan.rowGroups.searcher 1).pdxData 0 0)
    (hmatch : ∀ d < (scan.rowGroups.searcher 1).pdxData.numDimensions,
      (scan.searcher StdSort.insertion 1).preparedQuery d =
        readU8 (scan.rowGroups.searcher 1).pdxData.numVerticalDimensions
          ((scan.rowGroups.searcher 1).pdxData.cluster 0).numEmbeddings
          ((scan.rowGroups.searcher 1).pdxData.cluster 0).data 0 d)
    {result : List (KNNCandidate Rat)}
    (hresult : numberedResultSet scan.k (runInOrder scan).2.shared = result)
    (hfar : result.head?.all fun y => y.distance ≠ ofReal 0) :
    ¬ scan.ExactMatchFound StdSort.insertion
      (SortedQueue (KNNCandidate.distance (K := Rat))) readU8 fun _ _ _ => True := by
  intro h
  obtain ⟨y, hhead, hzero⟩ := h hall 1 0 0 hslot hmatch _ _ _ (run_runInOrder scan)
    (finished_runInOrder scan) fun _ _ _ _ => trivial
  rw [hresult] at hhead
  rw [hhead] at hfar
  exact absurd hzero (by simpa using hfar)

/-- Row 122880 is stored as `0`, which is also what the query is quantized to, but the threshold
`1 / 255 ^ 2` of the heap is truncated to zero and drops it. -/
theorem exactMatch_lost : ¬ unequalScales.ExactMatchFound StdSort.insertion
    (SortedQueue (KNNCandidate.distance (K := Rat))) readU8 fun _ _ _ => True :=
  not_exactMatchFound_of_runInOrder (by decide) ⟨by decide, by decide⟩ (by decide +kernel)
    (show _ = [⟨0, ofReal (1 / 65025)⟩] by decide +kernel) (by decide +kernel)

/-- Two row groups of embeddings `0` and `10 ^ 22`. The scale is so small that the greatest `float`
itself is truncated to zero, so that both vectors are dropped in both row groups. -/
def farEmbeddings : ParallelScan Rat UInt8 Nat 2 :=
  twoRowGroups 1 1 2 0 (fun _ => ⟨0, 255 / 10 ^ 22⟩) fun _ _ i => if i = 0 then 0 else 255

theorem exactMatch_lost_farEmbeddings : ¬ farEmbeddings.ExactMatchFound StdSort.insertion
    (SortedQueue (KNNCandidate.distance (K := Rat))) readU8 fun _ _ _ => True :=
  not_exactMatchFound_of_runInOrder (by decide) ⟨by decide, by decide⟩ (by decide +kernel)
    (show _ = [] by decide +kernel) (by decide +kernel)

end TwoRowGroups

end ParallelScan

end PDXearch
