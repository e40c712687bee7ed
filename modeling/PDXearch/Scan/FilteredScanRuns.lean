import PDXearch.Scan.SinkPhase

/-!
# Runs of the filtered scan

What holds when an iteration ends (`Boundary`): every search has passed its cursor over the same
number of clusters, and the candidates of these clusters were offered to the heap, except for some
that were dropped; but nothing is dropped as long as the sentinel is on top of the heap, that is,
before `k` candidates were offered.
-/

namespace PDXearch

open Lib ExactFloat PriorityQueue

namespace FilteredScan

variable {K E D : Type} [Zero E] [Field K] [LinearOrder K] [LinearOrder D]
  (scan : FilteredScan K E D) (std : StdSort)

/-! ## What a batch is searched for -/

/-- A batch with its searcher and the candidates of every cluster. -/
structure Ready (batch : Batch) (S : Searcher K E D) (candidates : Nat → List (KNNCandidate K)) :
    Prop where
  searcher : scan.batchSearcher std batch = some S
  numClusters : S.pdxData.numClusters = scan.index.numClustersPerRowGroup
  order : S.clusterIndicesInAccessOrder.Perm (List.range scan.index.numClustersPerRowGroup)
  start : S.atCursor 0 = S
  notes : ∀ cursor n arrays, Notes ((S.atCursor cursor).filteredSearchClusters n)
    ((S.atCursor cursor).filteredSearch n arrays)
  finite : ∀ c, ∀ x ∈ candidates c, x.distance < ⊤
  accounts : ∀ cursor n arrays t, Accounts AnyAnswer
    (fun S' pend t => S' = (S.atCursor cursor).advance n ∧ Settled (fun _ t => t ≠ ⊤) 0 pend t)
    (((S.atCursor cursor).filteredSearchClusters n).flatMap candidates) t
    ((S.atCursor cursor).filteredSearch n arrays)
  rows : ((S.clusterIndicesInAccessOrder.flatMap candidates).map KNNCandidate.index).Perm
    (batch.2.map (· % 2 ^ 32))

variable {scan std}

theorem exists_ready {M : Type} [AddCommMonoid M] (hconsistent : scan.index.Consistent)
    (hM : ∀ r, ∀ rowGroup ∈ scan.index.rowGroups r, Measured rowGroup.searcher.pdxData M)
    {batch : Batch} (hne : batch.2 ≠ []) (hnodup : batch.2.Nodup)
    (hgroup : ∀ r ∈ batch.2, getRowGroupId r = batch.1)
    (hindexed : ∀ r ∈ batch.2, scan.index.IsIndexed r) :
    ∃ S candidates, scan.Ready std batch S candidates := by
  obtain ⟨r, hr⟩ := List.exists_mem_of_ne_nil _ hne
  obtain ⟨rowGroup, hrowGroup, -⟩ := hindexed r hr
  rw [hgroup r hr] at hrowGroup
  have hheld : ∀ r ∈ batch.2, rowGroup.Holds r := by
    intro r hr
    obtain ⟨rowGroup', hrowGroup', hheld⟩ := hindexed r hr
    rw [hgroup r hr] at hrowGroup'
    obtain rfl := Option.some.inj (hrowGroup.symm.trans hrowGroup')
    exact hheld
  have hset := hconsistent _ _ hrowGroup
  have horder : (scan.initializeFilteredSearch std batch.2
      rowGroup).clusterIndicesInAccessOrder.Perm
        (List.range scan.index.numClustersPerRowGroup) := by
    rw [← hset.numClusters_eq]
    exact Searcher.getClustersAccessOrderIVF_perm _ _ _ _
  obtain ⟨μ, hμ⟩ := hM _ _ hrowGroup (scan.initializeFilteredSearch std batch.2 rowGroup) rfl
  let evaluator := createPredicateEvaluatorForRowGroup batch.2 rowGroup
  refine ⟨scan.initializeFilteredSearch std batch.2 rowGroup,
    fun c => μ.candidates c (some (rowGroup.searcher.selection evaluator c)),
    ?_, hset.numClusters_eq, horder, rfl, fun cursor n arrays => ?_, fun c x hx => ?_,
    fun cursor n arrays t => ?_, ?_⟩
  · exact congrArg (Option.map _) hrowGroup
  · exact filteredSearch_notes rfl n arrays
  · obtain ⟨i, -, -, rfl⟩ := μ.mem_candidates.mp hx
    exact hμ.finite c i
  · refine hμ.filteredSearch_accounts rfl (fun c hc hzero => ?_) cursor n arrays t
    have hlt := List.mem_range.mp (horder.mem_iff.mp hc)
    exact List.map_eq_nil_iff.mpr (PDXRowGroup.selectedSlots_eq_nil hset hheld hlt hzero)
  · rw [List.map_flatMap]
    refine (List.Perm.of_eq ?_).trans
      (PDXRowGroup.selectedIndices_perm hset hheld hnodup
        (fun r hr r' hr' => (hgroup r hr).trans (hgroup r' hr').symm) horder)
    exact List.flatMap_congr fun c _ => List.map_map

/-! ## The cursor after each iteration -/

/-- How many clusters every search has passed after `n` iterations. -/
def cursor (scan : FilteredScan K E D) (n : Nat) : Nat :=
  min (scan.partitionsToProbePerRowGroupOnFirstIteration +
    partitionsToProbePerRowGroupPerFollowUpIteration * (n - 1)) scan.index.numClustersPerRowGroup

omit [Zero E] [Field K] [LinearOrder K] [LinearOrder D] in
theorem cursor_succ {n : Nat} (hn : 0 < n) :
    scan.cursor (n + 1) = max (scan.cursor n)
      (min (scan.cursor n + partitionsToProbePerRowGroupPerFollowUpIteration)
        scan.index.numClustersPerRowGroup) := by
  obtain ⟨n, rfl⟩ := Nat.exists_eq_succ_of_ne_zero hn.ne'
  simp only [cursor, Nat.succ_sub_one, Nat.succ_eq_add_one, Nat.mul_succ]
  omega

omit [Zero E] [Field K] [LinearOrder K] [LinearOrder D] in
theorem cursor_le_succ {n : Nat} (hn : 0 < n) : scan.cursor n ≤ scan.cursor (n + 1) := by
  rw [cursor_succ hn]
  exact le_max_left _ _

omit [Zero E] [Field K] [LinearOrder K] [LinearOrder D] in
/-- The greatest number of iterations is enough for all clusters. -/
theorem cursor_maxNumProbeIterations :
    scan.cursor scan.maxNumProbeIterations = scan.index.numClustersPerRowGroup := by
  rw [cursor, min_eq_right_iff, maxNumProbeIterations, getMaximumNumberOfProbeIterations]
  split
  · omega
  · rw [Nat.sub_zero, Nat.add_sub_cancel_left, Int.ceil_toNat]
    have hceil := Nat.le_ceil ((scan.index.numClustersPerRowGroup : Rat) /
      partitionsToProbePerRowGroupPerFollowUpIteration)
    generalize ⌈(scan.index.numClustersPerRowGroup : Rat) /
      partitionsToProbePerRowGroupPerFollowUpIteration⌉₊ = m at hceil ⊢
    rw [div_le_iff₀ (by norm_num [partitionsToProbePerRowGroupPerFollowUpIteration])] at hceil
    have hle : scan.index.numClustersPerRowGroup ≤
        m * partitionsToProbePerRowGroupPerFollowUpIteration := by exact_mod_cast hceil
    rw [Nat.mul_comm]
    omega

omit [Zero E] [Field K] [LinearOrder K] [LinearOrder D] in
theorem maxNumProbeIterations_pos : 0 < scan.maxNumProbeIterations := by
  rw [maxNumProbeIterations, getMaximumNumberOfProbeIterations]
  split <;> omega

/-! ## What the heap has seen -/

section Heap

variable {H : Type} [Heap H K]

/-- Of the candidates `total` all were offered to the heap but some that were dropped, and these from
below a real candidate. -/
def HeapHasSeen (limit : Nat) (heap : H) (total : Multiset (KNNCandidate K)) : Prop :=
  ∃ offered dropped, Primed limit (heapInitializationElement K) offered heap ∧
    total = offered + dropped ∧ (dropped ≠ 0 → topKey heap ≠ ⊤)

omit [Field K] in
/-- A pool whose tasks search and return certain results, when all of them have ended. -/
theorem heapHasSeen_of_run {ι α : Type} [DecidableEq ι] [Fintype ι] {limit : Nat}
    {p q : ScanPool K H ι α} {tr : List (ι × ScanEvent K)} {total : Multiset (KNNCandidate K)}
    {pend : ι → Multiset (KNNCandidate K)} {result a : ι → α}
    (hseen : HeapHasSeen limit p.shared total)
    (hfinite : ∀ i, ∀ x ∈ pend i, x.distance < ⊤)
    (haccounts : ∀ i, Accounts (fun _ _ => True)
      (fun a pend t => a = result i ∧ Settled (fun _ t => t ≠ ⊤) 0 pend t) (pend i)
      (topKey p.shared) (p.task i))
    (hrun : Pool.Run (queueObj limit) p tr q) (hdone : ∀ i, q.task i = .done (a i)) :
    HeapHasSeen limit q.shared (total + ∑ i, pend i) ∧ a = result := by
  obtain ⟨offered₀, dropped₀, hprimed, rfl, hdropped₀⟩ := hseen
  have hstable : ∀ i, Accounts.Stable fun a pend t =>
      a = result i ∧ Settled (fun (_ : KNNCandidate K) t => t ≠ ⊤) 0 pend t := by
    rintro i a pend t t' ht ⟨ha, dropped, rfl, hall⟩
    exact ⟨ha, dropped, rfl, fun x hx => ne_top_of_le_ne_top (hall x hx) ht⟩
  obtain ⟨htop, pend', hacc, hsum⟩ := Pool.run_accounted hstable
    (⟨hprimed, hfinite, haccounts⟩ : Pool.Accounted limit (heapInitializationElement K)
      (fun _ _ _ => True) _ offered₀ pend p) hrun fun _ _ _ _ => trivial
  have hpost : ∀ i, a i = result i ∧
      Settled (fun (_ : KNNCandidate K) t => t ≠ ⊤) 0 (pend' i) (topKey q.shared) := by
    intro i
    have hi := hdone i ▸ hacc.accounts i
    cases hi with
    | done h => exact h
  refine ⟨⟨_, dropped₀ + ∑ i, pend' i, hacc.primed, ?_, fun hne => ?_⟩,
    funext fun i => (hpost i).1⟩
  · rw [hsum]
    abel
  · obtain ⟨x, hx⟩ := Multiset.exists_mem_of_ne_zero hne
    rcases Multiset.mem_add.mp hx with hx | hx
    · refine ne_top_of_le_ne_top (hdropped₀ ?_) htop
      rintro rfl
      exact Multiset.notMem_zero x hx
    · obtain ⟨i, -, hx⟩ := Multiset.mem_sum.mp hx
      obtain ⟨-, dropped, heq, hall⟩ := hpost i
      rw [add_zero] at heq
      exact hall x (heq ▸ hx)

end Heap

/-! ## The clusters up to a cursor -/

section Clusters

variable {B : Type} (S : Batch → Searcher K E D) (f : Batch → Nat → List B)

/-- What `f` lists for the clusters that come first in each batch's access order. -/
def upTo (bs : List Batch) (cursor : Nat) : List B :=
  bs.flatMap fun b => ((S b).clusterIndicesInAccessOrder.take cursor).flatMap (f b)

/-- What `f` lists for the clusters of one batch from a cursor up to another one. -/
def between (cursor cursor' : Nat) (b : Batch) : List B :=
  (((S b).clusterIndicesInAccessOrder.take cursor').drop cursor).flatMap (f b)

/-- A cluster with its row group. -/
def rowGroupCluster (b : Batch) (c : Nat) : List (Nat × Nat) := [(b.1, c)]

variable {S f}

omit [Zero E] [Field K] [LinearOrder K] [LinearOrder D] in
theorem upTo_eq_add (bs : List Batch) {cursor cursor' : Nat} (h : cursor ≤ cursor') :
    (upTo S f bs cursor' : Multiset B) =
      upTo S f bs cursor + (bs.flatMap (between S f cursor cursor') : List B) := by
  rw [Multiset.coe_add, Multiset.coe_eq_coe]
  refine (List.Perm.of_eq ?_).trans (List.flatMap_append_perm bs _ _).symm
  refine List.flatMap_congr fun b _ => ?_
  rw [between, ← List.flatMap_append]
  have hsplit := List.take_append_drop cursor ((S b).clusterIndicesInAccessOrder.take cursor')
  rw [List.take_take, min_eq_left h] at hsplit
  rw [hsplit]

end Clusters

/-! ## The programs of a phase -/

section Programs

variable {arrays : Nat → Nat → ProbeState D} {b : Batch} {S : Batch → Searcher K E D}
  {candidates : Batch → Nat → List (KNNCandidate K)}

omit [Zero E] [Field K] [LinearOrder K] [LinearOrder D] in
/-- The clusters that a search passes when its cursor moves. -/
theorem filteredSearchClusters_eq {S : Searcher K E D} {cursor cursor' n : Nat}
    (hcursor : max cursor (min (cursor + n) S.pdxData.numClusters) = cursor') :
    (S.atCursor cursor).filteredSearchClusters n =
      (S.clusterIndicesInAccessOrder.take cursor').drop cursor := by
  rw [Searcher.filteredSearchClusters_atCursor, ← hcursor]
  rcases le_total cursor (min (cursor + n) S.pdxData.numClusters) with hle | hle
  · rw [max_eq_right hle]
  · rw [max_eq_left hle, List.drop_eq_nil_of_le (List.length_take_le _ _),
      List.drop_eq_nil_of_le ((List.length_take_le _ _).trans hle)]

/-- A search that moves the cursor of a batch, as a program of the scan. -/
theorem Ready.accounts_inRowGroup {cursor cursor' n : Nat}
    (h : scan.Ready std b (S b) (candidates b))
    (hcursor : max cursor (min (cursor + n) scan.index.numClustersPerRowGroup) = cursor')
    (arrays : ProbeState D) (t : ExactFloat K) :
    Accounts (fun _ _ => True)
      (fun S' pend t => S' = (S b).atCursor cursor' ∧ Settled (fun _ t => t ≠ ⊤) 0 pend t)
      (between S candidates cursor cursor' b) t
      (inRowGroup b.1 (((S b).atCursor cursor).filteredSearch n arrays)) := by
  rw [← h.numClusters] at hcursor
  have haccounts := h.accounts cursor n arrays t
  rw [Searcher.advance_atCursor, hcursor, filteredSearchClusters_eq hcursor] at haccounts
  exact haccounts.relabel (fun _ _ _ => trivial) (b.1, ·)

theorem Ready.notes_inRowGroup {cursor cursor' n : Nat}
    (h : scan.Ready std b (S b) (candidates b))
    (hcursor : max cursor (min (cursor + n) scan.index.numClustersPerRowGroup) = cursor')
    (arrays : ProbeState D) :
    Notes (between S rowGroupCluster cursor cursor' b)
      (inRowGroup b.1 (((S b).atCursor cursor).filteredSearch n arrays)) := by
  rw [← h.numClusters] at hcursor
  have hnotes := (h.notes cursor n arrays).relabel (b.1, ·) (b.1, ·)
  rw [filteredSearchClusters_eq hcursor, List.map_eq_flatMap] at hnotes
  exact hnotes

omit [Zero E] [Field K] [LinearOrder K] [LinearOrder D] in
theorem max_cursor_zero :
    max 0 (min (0 + scan.partitionsToProbePerRowGroupOnFirstIteration)
      scan.index.numClustersPerRowGroup) = scan.cursor 1 := by
  rw [cursor, Nat.zero_add, Nat.zero_max, Nat.sub_self, Nat.mul_zero, Nat.add_zero]

/-- Batches with their searchers after `n` iterations. -/
def searched (scan : FilteredScan K E D) (S : Batch → Searcher K E D) (n : Nat) (b : Batch) :
    SearchedRowGroup K E D :=
  (b.1, (S b).atCursor (scan.cursor n))

theorem Ready.searchBatch_eq (h : scan.Ready std b (S b) (candidates b)) :
    scan.searchBatch std arrays b =
      inRowGroup b.1 (((S b).atCursor 0).filteredSearch
        scan.partitionsToProbePerRowGroupOnFirstIteration (arrays b.1 0)) >>=
      fun searcher => .done [(b.1, searcher)] := by
  rw [searchBatch, h.searcher, h.start]

/-- The first iteration for the batches of a thread. -/
theorem searchBatches_accounts {bs : List Batch}
    (h : ∀ b ∈ bs, scan.Ready std b (S b) (candidates b)) (t : ExactFloat K) :
    Accounts (fun _ _ => True)
      (fun found pend t => found = bs.map (scan.searched S 1) ∧
        Settled (fun _ t => t ≠ ⊤) 0 pend t)
      (bs.flatMap (between S candidates 0 (scan.cursor 1)) : List (KNNCandidate K)) t
      (scan.searchBatches std arrays bs) := by
  induction bs generalizing t with
  | nil => exact .done ⟨rfl, settled_self _ 0 t⟩
  | cons b bs ih =>
    have hb := h b List.mem_cons_self
    rw [searchBatches, hb.searchBatch_eq, Client.bind_assoc, List.flatMap_cons, ← Multiset.coe_add]
    refine ((hb.accounts_inRowGroup max_cursor_zero (arrays b.1 0) t).frame _).bind ?_
    rintro _ _ t' - ⟨own, rfl, rfl, dropped, rfl, hall⟩
    rw [add_zero, add_comm dropped]
    refine ((ih (fun b hb => h b (List.mem_cons_of_mem _ hb)) t').frame dropped).bind ?_
    rintro _ _ t'' ht'' ⟨own, rfl, rfl, dropped', rfl, hall'⟩
    refine .done ⟨rfl, dropped' + dropped, by rw [add_zero, add_zero], fun x hx => ?_⟩
    rcases Multiset.mem_add.mp hx with hx | hx
    · exact hall' x hx
    · exact ne_top_of_le_ne_top (hall x hx) ht''

theorem searchBatches_notes {bs : List Batch}
    (h : ∀ b ∈ bs, scan.Ready std b (S b) (candidates b)) :
    Notes (bs.flatMap (between S rowGroupCluster 0 (scan.cursor 1)))
      (scan.searchBatches std arrays bs) := by
  induction bs with
  | nil => exact .done
  | cons b bs ih =>
    have hb := h b List.mem_cons_self
    rw [searchBatches, hb.searchBatch_eq, Client.bind_assoc, List.flatMap_cons]
    refine (hb.notes_inRowGroup max_cursor_zero (arrays b.1 0)).bind fun _ => ?_
    exact (ih fun b hb => h b (List.mem_cons_of_mem _ hb)).bind_done fun _ => .done

end Programs

/-! ## The end of an iteration -/

section Boundary

variable (S : Batch → Searcher K E D) (candidates : Batch → Nat → List (KNNCandidate K))
  {H : Type} [Heap H K]

/-- When `n` iterations have ended: the row groups in some order, and what the heap has seen and the
trace has noted. -/
structure Boundary (scan : FilteredScan K E D) (bs : List Batch) (n : Nat)
    (rowGroups : List (SearchedRowGroup K E D)) (heap : H) (tr : List (ScanEvent K)) : Prop where
  rowGroups_eq : ∃ order : List Batch, order.Perm bs ∧ rowGroups = order.map (scan.searched S n)
  heap : HeapHasSeen scan.k heap (upTo S candidates bs (scan.cursor n))
  notes : (notes tr : Multiset (Nat × Nat)) = upTo S rowGroupCluster bs (scan.cursor n)

variable {S candidates} {arrays : Nat → Nat → ProbeState D} {threads : Nat}
  {inputChunks : Fin threads → List (List Nat)}

omit [Field K] [LinearOrder D] [Zero E] in
theorem heapHasSeen_initialHeap (hk : 0 < scan.k) :
    HeapHasSeen scan.k (initialHeap H) 0 :=
  ⟨0, 0, primed_initialHeap hk, rfl, fun h => absurd rfl h⟩

omit [Zero E] [Field K] [LinearOrder K] [LinearOrder D] in
/-- The shares of the threads together. -/
theorem sum_between_batches {B : Type} (f : Batch → Nat → List B) (cursor : Nat) :
    ∑ i, ((batches 0 [] (inputChunks i)).flatMap (between S f 0 cursor) : Multiset B) =
      upTo S f (allBatches inputChunks) cursor := by
  rw [Pool.sum_coe_finRange (fun i => (batches 0 [] (inputChunks i)).flatMap _), upTo, allBatches,
    List.flatMap_assoc]
  rfl

/-- The programs of the Sink phase. -/
theorem sinkThread_accounts
    (hready : ∀ b ∈ allBatches inputChunks, scan.Ready std b (S b) (candidates b)) (i : Fin threads)
    (t : ExactFloat K) :
    Accounts (fun _ _ => True)
      (fun found pend t => found = (batches 0 [] (inputChunks i)).map (scan.searched S 1) ∧
        Settled (fun _ t => t ≠ ⊤) 0 pend t)
      ((batches 0 [] (inputChunks i)).flatMap (between S candidates 0 (scan.cursor 1)) :
        List (KNNCandidate K)) t
      (scan.sinkThread std arrays (inputChunks i) ⟨0, [], []⟩) := by
  rw [sinkThread_eq]
  refine (searchBatches_accounts (fun b hb => hready b (List.mem_flatMap.mpr
    ⟨i, List.mem_finRange i, hb⟩)) t).bind fun found pend t' _ hpost => .done ?_
  rwa [List.nil_append]

theorem sinkThread_notes
    (hready : ∀ b ∈ allBatches inputChunks, scan.Ready std b (S b) (candidates b))
    (i : Fin threads) :
    Notes ((batches 0 [] (inputChunks i)).flatMap (between S rowGroupCluster 0 (scan.cursor 1)))
      (scan.sinkThread std arrays (inputChunks i) ⟨0, [], []⟩) := by
  rw [sinkThread_eq]
  exact (searchBatches_notes fun b hb => hready b (List.mem_flatMap.mpr
    ⟨i, List.mem_finRange i, hb⟩)).bind_done fun _ => .done

/-- The notes of the Sink phase, made and still to be made. -/
theorem notes_sinking
    (hready : ∀ b ∈ allBatches inputChunks, scan.Ready std b (S b) (candidates b))
    {p : ScanPool K H (Fin threads) (List (SearchedRowGroup K E D))}
    {tr : List (Fin threads × ScanEvent K)}
    (hrun : Pool.Run (queueObj scan.k) ⟨initialHeap H, fun i =>
      scan.sinkThread std arrays (inputChunks i) ⟨0, [], []⟩⟩ tr p) :
    ∃ l : Fin threads → List (Nat × Nat), (∀ i, Notes (l i) (p.task i)) ∧
      (upTo S rowGroupCluster (allBatches inputChunks) (scan.cursor 1) : Multiset (Nat × Nat)) =
        notes (tr.map Prod.snd) + ∑ i, (l i : Multiset (Nat × Nat)) := by
  obtain ⟨l, hl, hsum⟩ := Pool.run_notes (fun i => sinkThread_notes hready i) hrun
  rw [sum_between_batches] at hsum
  exact ⟨l, hl, hsum⟩

/-- The first iteration. -/
theorem boundary_sinking (hk : 0 < scan.k)
    (hready : ∀ b ∈ allBatches inputChunks, scan.Ready std b (S b) (candidates b))
    {p : ScanPool K H (Fin threads) (List (SearchedRowGroup K E D))}
    {tr : List (Fin threads × ScanEvent K)}
    (hrun : Pool.Run (queueObj scan.k) ⟨initialHeap H, fun i =>
      scan.sinkThread std arrays (inputChunks i) ⟨0, [], []⟩⟩ tr p)
    {combined : Fin threads → List (SearchedRowGroup K E D)}
    (hdone : ∀ i, p.task i = .done (combined i)) {order : List (Fin threads)}
    (horder : order.Perm (List.finRange threads)) :
    Boundary S candidates scan (allBatches inputChunks) 1 (order.flatMap combined) p.shared
      (tr.map Prod.snd) := by
  have hfinite : ∀ i, ∀ x ∈ ((batches 0 [] (inputChunks i)).flatMap
      (between S candidates 0 (scan.cursor 1)) : Multiset (KNNCandidate K)), x.distance < ⊤ := by
    intro i x hx
    obtain ⟨b, hb, hx⟩ := List.mem_flatMap.mp (Multiset.mem_coe.mp hx)
    obtain ⟨c, -, hx⟩ := List.mem_flatMap.mp hx
    exact (hready b (List.mem_flatMap.mpr ⟨i, List.mem_finRange i, hb⟩)).finite c x hx
  obtain ⟨hseen, rfl⟩ := heapHasSeen_of_run (heapHasSeen_initialHeap hk) hfinite
    (fun i => sinkThread_accounts hready i _) hrun hdone
  refine ⟨⟨order.flatMap fun i => batches 0 [] (inputChunks i), horder.flatMap_right _, ?_⟩,
    ?_, ?_⟩
  · rw [List.map_flatMap]
  · rwa [zero_add, sum_between_batches] at hseen
  · obtain ⟨l, hl, hsum⟩ := notes_sinking hready hrun
    have hnil := Pool.notes_eq_nil_of_finished hl fun i => ⟨_, hdone i⟩
    simp only [hnil, Multiset.coe_nil, Finset.sum_const_zero, add_zero] at hsum
    exact hsum.symm

omit [LinearOrder K] [Heap H K] in
/-- The tasks of an event, each with the batch of its row group. -/
theorem exists_task_batch (arrays : Nat → Nat → ProbeState D) {order : List Batch} (n : Nat)
    {rowGroups : List (SearchedRowGroup K E D)} (h : rowGroups = order.map (scan.searched S n))
    (heap : H) :
    ∃ b : Fin rowGroups.length → Batch, List.ofFn b = order ∧
      (∀ i, rowGroups.get i = scan.searched S n (b i)) ∧
      ∀ i, (schedule arrays n rowGroups heap).task i =
        inRowGroup (b i).1 (((S (b i)).atCursor (scan.cursor n)).filteredSearch
          partitionsToProbePerRowGroupPerFollowUpIteration (arrays (b i).1 n)) := by
  subst h
  have hlength : (order.map (scan.searched S n)).length = order.length := List.length_map ..
  have hget : ∀ i, (order.map (scan.searched S n)).get i =
      scan.searched S n (order.get (i.cast hlength)) := fun i => by simp
  refine ⟨fun i => order.get (i.cast hlength), ?_, hget, fun i => ?_⟩
  · refine List.ext_getElem (by simp) fun i h h' => ?_
    simp
  · simp only [schedule, hget, searched]

omit [Zero E] [Field K] [LinearOrder K] [LinearOrder D] in
/-- The shares of the tasks together. -/
theorem sum_between_ofFn {B : Type} {bs : List Batch} {m : Nat} {b : Fin m → Batch}
    (h : (List.ofFn b).Perm bs) (f : Batch → Nat → List B) (cursor cursor' : Nat) :
    ∑ i, (between S f cursor cursor' (b i) : Multiset B) =
      (bs.flatMap (between S f cursor cursor') : List B) := by
  rw [Pool.sum_coe_finRange fun i => between S f cursor cursor' (b i), ← List.flatMap_map b,
    ← List.ofFn_eq_map]
  exact Multiset.coe_eq_coe.mpr (h.flatMap_right _)

/-- The notes of a follow-up iteration. -/
theorem notes_iterating {bs : List Batch} {n : Nat} (hn : 0 < n)
    (hready : ∀ b ∈ bs, scan.Ready std b (S b) (candidates b))
    {rowGroups : List (SearchedRowGroup K E D)} {heap : H} {tr₀ : List (ScanEvent K)}
    (h : Boundary S candidates scan bs n rowGroups heap tr₀)
    {p : ScanPool K H (Fin rowGroups.length) (Searcher K E D)}
    {tr : List (Fin rowGroups.length × ScanEvent K)}
    (hrun : Pool.Run (queueObj scan.k) (schedule arrays n rowGroups heap) tr p) :
    ∃ l : Fin rowGroups.length → List (Nat × Nat), (∀ i, Notes (l i) (p.task i)) ∧
      (upTo S rowGroupCluster bs (scan.cursor (n + 1)) : Multiset (Nat × Nat)) =
        notes (tr₀ ++ tr.map Prod.snd) + ∑ i, (l i : Multiset (Nat × Nat)) := by
  obtain ⟨order, horder, heq⟩ := h.rowGroups_eq
  obtain ⟨b, hofFn, -, htask⟩ := exists_task_batch arrays n heq heap
  have hperm : (List.ofFn b).Perm bs := hofFn ▸ horder
  have hmem : ∀ i, b i ∈ bs := fun i => hperm.mem_iff.mp (List.mem_ofFn.mpr ⟨i, rfl⟩)
  obtain ⟨l, hl, hnotes⟩ := Pool.run_notes (fun i => htask i ▸
    (hready _ (hmem i)).notes_inRowGroup (cursor_succ hn).symm (arrays (b i).1 n)) hrun
  rw [sum_between_ofFn hperm] at hnotes
  refine ⟨l, hl, ?_⟩
  rw [upTo_eq_add _ (cursor_le_succ hn), hnotes, notes_append, ← Multiset.coe_add, h.notes, add_assoc]

/-- A follow-up iteration. -/
theorem boundary_iterating {bs : List Batch} {n : Nat} (hn : 0 < n)
    (hready : ∀ b ∈ bs, scan.Ready std b (S b) (candidates b))
    {rowGroups : List (SearchedRowGroup K E D)} {heap : H} {tr₀ : List (ScanEvent K)}
    (h : Boundary S candidates scan bs n rowGroups heap tr₀)
    {p : ScanPool K H (Fin rowGroups.length) (Searcher K E D)}
    {tr : List (Fin rowGroups.length × ScanEvent K)}
    (hrun : Pool.Run (queueObj scan.k) (schedule arrays n rowGroups heap) tr p)
    {searchers : Fin rowGroups.length → Searcher K E D}
    (hdone : ∀ i, p.task i = .done (searchers i)) :
    Boundary S candidates scan bs (n + 1)
      (List.ofFn fun i => ((rowGroups.get i).1, searchers i)) p.shared
      (tr₀ ++ tr.map Prod.snd) := by
  obtain ⟨order, horder, heq⟩ := h.rowGroups_eq
  obtain ⟨b, hofFn, hget, htask⟩ := exists_task_batch arrays n heq heap
  have hperm : (List.ofFn b).Perm bs := hofFn ▸ horder
  have hmem : ∀ i, b i ∈ bs := fun i => hperm.mem_iff.mp (List.mem_ofFn.mpr ⟨i, rfl⟩)
  have hfinite : ∀ i, ∀ x ∈ (between S candidates (scan.cursor n) (scan.cursor (n + 1)) (b i) :
      Multiset (KNNCandidate K)), x.distance < ⊤ := by
    intro i x hx
    obtain ⟨c, -, hx⟩ := List.mem_flatMap.mp (Multiset.mem_coe.mp hx)
    exact (hready _ (hmem i)).finite c x hx
  obtain ⟨hseen, rfl⟩ := heapHasSeen_of_run h.heap hfinite
    (fun i => htask i ▸ (hready _ (hmem i)).accounts_inRowGroup (cursor_succ hn).symm _ _) hrun hdone
  refine ⟨⟨List.ofFn b, hperm, ?_⟩, ?_, ?_⟩
  · simp only [hget, List.map_ofFn]
    rfl
  · rwa [sum_between_ofFn hperm, ← upTo_eq_add _ (cursor_le_succ hn)] at hseen
  · obtain ⟨l, hl, hnotes⟩ := notes_iterating hn hready h hrun
    have hnil := Pool.notes_eq_nil_of_finished hl fun i => ⟨_, hdone i⟩
    simp only [hnil, Multiset.coe_nil, Finset.sum_const_zero, add_zero] at hnotes
    exact hnotes.symm

end Boundary

end FilteredScan

end PDXearch
