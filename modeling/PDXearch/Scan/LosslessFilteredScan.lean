import PDXearch.Scan.FilteredScanResult
import PDXearch.Index.RowDistances

/-!
# Lossless filtered scan

With ratios of at least one the filtered scan of an F32 index drops no row that is nearer than the
vector on top of the heap. So under every schedule the heap holds, at the end of every iteration, the
nearest of the passing rows in the clusters that were probed, whichever iterations they were found
in, and the scan emits these rows in ascending order of their distances.
-/

namespace PDXearch

open Lib ExactFloat PriorityQueue

namespace FilteredScan

variable {K : Type} [Field K] [LinearOrder K]

/-- The row's vector is in one of the first `cursor` clusters that the search of its row group
probes. -/
def isProbed {E D : Type} [Zero E] (scan : FilteredScan K E D) (std : StdSort) (cursor rowId : Nat) :
    Bool :=
  scan.index.isProbed std scan.preprocessedQueryEmbedding cursor rowId

variable (scan : FilteredScan K K (ExactFloat K)) (std : StdSort)
  (rows : Nat → Option (EmbeddingBuffer K))

/-- The squared distance of a row's embedding to the query. -/
def distanceOf (rowId : Nat) : K :=
  rowDistance rows scan.index.numDimensions scan.preprocessedQueryEmbedding rowId

/-- A batch with its searcher and the candidates of every cluster, which are those of the batch's
rows. What the search drops is no nearer than the vector on top of the heap. -/
structure LosslessReady (batch : Batch) (S : Searcher K K (ExactFloat K))
    (candidates : Nat → List (KNNCandidate K)) : Prop where
  searcher : scan.batchSearcher std batch = some S
  numClusters : S.pdxData.numClusters = scan.index.numClustersPerRowGroup
  start : S.atCursor 0 = S
  finite : ∀ c, ∀ x ∈ candidates c, x.distance < ⊤
  accounts : ∀ cursor n arrays t, Accounts AnyAnswer
    (fun S' pend t => S' = (S.atCursor cursor).advance n ∧
      Settled (fun x t => t ≤ x.distance) 0 pend t)
    (((S.atCursor cursor).filteredSearchClusters n).flatMap candidates) t
    ((S.atCursor cursor).filteredSearch n arrays)
  rows : ∀ cursor, ((S.clusterIndicesInAccessOrder.take cursor).flatMap candidates).Perm
    ((batch.2.filter fun r => scan.isProbed std cursor r).map
      (rowCandidate rows scan.index.numDimensions scan.preprocessedQueryEmbedding))

/-- The pruners of the row groups keep every vector that is nearer than the top of the heap. -/
def LosslessPruners (w : PDXearchWrapperParallel K K (ExactFloat K)) : Prop :=
  ∀ g, ∀ rowGroup ∈ w.rowGroups g,
    rowGroup.searcher.pruner.numDimensions = rowGroup.searcher.pdxData.numDimensions ∧
      rowGroup.searcher.pruner.Lossless

variable {scan std rows} [IsStrictOrderedRing K] {ctx : BuildContext K K}

theorem exists_losslessReady (hindex : scan.index.SetUpWith ctx quantizationF32 rows)
    (hpruners : LosslessPruners scan.index) {batch : Batch} (hne : batch.2 ≠ [])
    (hnodup : batch.2.Nodup) (hgroup : ∀ r ∈ batch.2, getRowGroupId r = batch.1)
    (hrows : ∀ r ∈ batch.2, IsRowOf rows r) :
    ∃ S candidates, scan.LosslessReady std rows batch S candidates := by
  obtain ⟨r, hr⟩ := List.exists_mem_of_ne_nil _ hne
  obtain ⟨rowGroup, hrowGroup, -⟩ := hindex.isIndexed (hrows r hr)
  rw [hgroup r hr] at hrowGroup
  have hheld : ∀ r ∈ batch.2, rowGroup.Holds r := by
    intro r hr
    obtain ⟨rowGroup', hrowGroup', hheld⟩ := hindex.isIndexed (hrows r hr)
    rw [hgroup r hr] at hrowGroup'
    obtain rfl := Option.some.inj (hrowGroup.symm.trans hrowGroup')
    exact hheld
  have hset := hindex.consistent _ _ hrowGroup
  obtain ⟨buffer, -, hsame⟩ := hindex.exists_buffer hrowGroup
  obtain ⟨hdims, hlossless⟩ := hpruners _ _ hrowGroup
  let evaluator := createPredicateEvaluatorForRowGroup batch.2 rowGroup
  let S := scan.initializeFilteredSearch std batch.2 rowGroup
  have hf32 : S.pdxData.quantization = Quantization.f32 :=
    congrArg IndexPDXIVF.quantization hsame.pdxData_eq
  have horder : S.clusterIndicesInAccessOrder.Perm
      (List.range scan.index.numClustersPerRowGroup) := by
    rw [← hset.numClusters_eq]
    exact Searcher.getClustersAccessOrderIVF_perm _ _ _ _
  let μ := DistanceMeasure.f32 S hf32
  refine ⟨S, fun c => μ.candidates c (some (rowGroup.searcher.selection evaluator c)),
    congrArg (Option.map _) hrowGroup, hset.numClusters_eq, rfl, fun c x hx => ?_,
    fun cursor n arrays t => ?_, fun cursor => ?_⟩
  · obtain ⟨i, -, -, rfl⟩ := μ.mem_candidates.mp hx
    exact (isMeasure_f32 hf32).finite c i
  · have hrule : DropRule (μ.atCursor cursor) AnyAnswer (fun x t => t ≤ x.distance) :=
      ⟨fun ht h => ht.trans h, (lossless_f32 (S := S) hf32 hdims hlossless).drop⟩
    refine hrule.filteredSearch_accounts rfl (fun c hc hzero => ?_) n arrays t
    have hlt := List.mem_range.mp (horder.mem_iff.mp hc)
    exact List.map_eq_nil_iff.mpr (PDXRowGroup.selectedSlots_eq_nil hset hheld hlt hzero)
  · have hslots := PDXRowGroup.selectedSlots_perm hset hheld hnodup
      (fun r hr r' hr' => (hgroup r hr).trans (hgroup r' hr').symm)
      ((horder.nodup_iff.mpr List.nodup_range).sublist (List.take_sublist cursor _))
      (fun c hc => List.mem_range.mp (horder.mem_iff.mp (List.mem_of_mem_take hc)))
    have hcandidates := hslots.map fun slot : Nat × Nat => vectorF32 S slot.1 slot.2
    rw [List.map_flatMap, List.map_map] at hcandidates
    have hvectors : ∀ c ∈ S.clusterIndicesInAccessOrder.take cursor,
        μ.candidates c (some (rowGroup.searcher.selection evaluator c)) =
          ((DistanceMeasure.selectedSlots rowGroup.searcher c (some (rowGroup.searcher.selection
            evaluator c))).map (Prod.mk c)).map fun slot : Nat × Nat =>
              vectorF32 S slot.1 slot.2 := by
      intro c _
      rw [List.map_map]
      exact List.map_congr_left fun i _ => candidate_f32 hf32 c i
    have hprobed : ∀ r ∈ batch.2, decide ((rowGroup.slotOf r).clusterId ∈
        S.clusterIndicesInAccessOrder.take cursor) = scan.isProbed std cursor r := by
      intro r hr
      rw [isProbed, PDXearchWrapperParallel.isProbed, hgroup r hr, Option.mem_def.mp hrowGroup]
      rfl
    rw [List.flatMap_congr hvectors, ← List.filter_congr hprobed]
    refine hcandidates.trans (List.Perm.of_eq (List.map_congr_left fun r hr => ?_))
    have hmem := (List.mem_filter.mp hr).1
    have hrowGroup' : rowGroup ∈ scan.index.rowGroups (getRowGroupId r) := by
      rwa [hgroup r hmem]
    have hprepared : S.preparedQuery = scan.preprocessedQueryEmbedding :=
      congrArg (fun Q : Quantization K K (ExactFloat K) =>
        Q.prepareQuery scan.preprocessedQueryEmbedding) hf32
    exact (hindex.vectorF32_slotOf (S := S) (hrows r hmem) hrowGroup' rfl).trans
      (congrArg (fun q => rowCandidate rows scan.index.numDimensions q r) hprepared)

/-! ## The programs of a phase -/

section Programs

variable {arrays : Nat → Nat → ProbeState (ExactFloat K)} {b : Batch}
  {S : Batch → Searcher K K (ExactFloat K)} {candidates : Batch → Nat → List (KNNCandidate K)}

omit [IsStrictOrderedRing K] in
/-- A search that moves the cursor of a batch, as a program of the scan. -/
theorem LosslessReady.accounts_inRowGroup {cursor cursor' n : Nat}
    (h : scan.LosslessReady std rows b (S b) (candidates b))
    (hcursor : max cursor (min (cursor + n) scan.index.numClustersPerRowGroup) = cursor')
    (arrays : ProbeState (ExactFloat K)) (t : ExactFloat K) :
    Accounts (fun _ _ => True)
      (fun S' pend t => S' = (S b).atCursor cursor' ∧ Settled (fun x t => t ≤ x.distance) 0 pend t)
      (between S candidates cursor cursor' b) t
      (inRowGroup b.1 (((S b).atCursor cursor).filteredSearch n arrays)) := by
  rw [← h.numClusters] at hcursor
  have haccounts := h.accounts cursor n arrays t
  rw [Searcher.advance_atCursor, hcursor, filteredSearchClusters_eq hcursor] at haccounts
  exact haccounts.relabel (fun _ _ _ => trivial) (b.1, ·)

omit [IsStrictOrderedRing K] in
theorem LosslessReady.searchBatch_eq (h : scan.LosslessReady std rows b (S b) (candidates b)) :
    scan.searchBatch std arrays b =
      inRowGroup b.1 (((S b).atCursor 0).filteredSearch
        scan.partitionsToProbePerRowGroupOnFirstIteration (arrays b.1 0)) >>=
      fun searcher => .done [(b.1, searcher)] := by
  rw [searchBatch, h.searcher, h.start]

omit [IsStrictOrderedRing K] in
/-- The first iteration for the batches of a thread. -/
theorem lossless_searchBatches_accounts {bs : List Batch}
    (h : ∀ b ∈ bs, scan.LosslessReady std rows b (S b) (candidates b)) (t : ExactFloat K) :
    Accounts (fun _ _ => True)
      (fun found pend t => found = bs.map (scan.searched S 1) ∧
        Settled (fun x t => t ≤ x.distance) 0 pend t)
      (bs.flatMap (between S candidates 0 (scan.cursor 1)) : List (KNNCandidate K)) t
      (scan.searchBatches std arrays bs) := by
  induction bs generalizing t with
  | nil => exact .done ⟨rfl, settled_self _ 0 t⟩
  | cons b bs ih =>
    have hb := h b List.mem_cons_self
    rw [searchBatches, hb.searchBatch_eq, Client.bind_assoc, List.flatMap_cons, ← Multiset.coe_add]
    refine ((hb.accounts_inRowGroup max_cursor_zero (arrays b.1 0) t).frame _).bind ?_
    rintro _ _ t' - ⟨own, rfl, rfl, dropped, rfl, hall⟩
    rw [add_zero, add_comm dropped]
    refine ((ih (fun b hb => h b (List.mem_cons_of_mem _ hb)) t').frame dropped).bind ?_
    rintro _ _ t'' ht'' ⟨own, rfl, rfl, dropped', rfl, hall'⟩
    -- the top of the heap has only come nearer since
    refine .done ⟨rfl, dropped' + dropped, by rw [add_zero, add_zero], fun x hx => ?_⟩
    rcases Multiset.mem_add.mp hx with hx | hx
    · exact hall' x hx
    · exact ht''.trans (hall x hx)

end Programs

/-! ## The end of an iteration -/

section Boundary

variable {S : Batch → Searcher K K (ExactFloat K)}
  {candidates : Batch → Nat → List (KNNCandidate K)} {H : Type} [Heap H K]
  {arrays : Nat → Nat → ProbeState (ExactFloat K)} {threads : Nat}
  {inputChunks : Fin threads → List (List Nat)}

omit [Field K] [IsStrictOrderedRing K] in
/-- A pool whose tasks drop only what is no nearer than the top of the heap, when all of them have
ended: the heap holds the nearest of all their candidates. -/
theorem primed_of_run {ι α : Type} [DecidableEq ι] [Fintype ι] {limit : Nat}
    {p q : ScanPool K H ι α} {tr : List (ι × ScanEvent K)} {total : Multiset (KNNCandidate K)}
    {pend : ι → Multiset (KNNCandidate K)} {result a : ι → α}
    (hprimed : Primed limit (heapInitializationElement K) total p.shared)
    (hfinite : ∀ i, ∀ x ∈ pend i, x.distance < ⊤)
    (haccounts : ∀ i, Accounts (fun _ _ => True)
      (fun a pend t => a = result i ∧ Settled (fun x t => t ≤ x.distance) 0 pend t) (pend i)
      (topKey p.shared) (p.task i))
    (hrun : Pool.Run (queueObj limit) p tr q) (hdone : ∀ i, q.task i = .done (a i)) :
    Primed limit (heapInitializationElement K) (total + ∑ i, pend i) q.shared ∧ a = result := by
  have hstable : ∀ i, Accounts.Stable fun a pend t =>
      a = result i ∧ Settled (fun (x : KNNCandidate K) t => t ≤ x.distance) 0 pend t := by
    rintro i a pend t t' ht ⟨ha, dropped, rfl, hall⟩
    exact ⟨ha, dropped, rfl, fun x hx => ht.trans (hall x hx)⟩
  obtain ⟨-, pend', hacc, hsum⟩ := Pool.run_accounted hstable
    (⟨hprimed, hfinite, haccounts⟩ : Pool.Accounted limit (heapInitializationElement K)
      (fun _ _ _ => True) _ total pend p) hrun fun _ _ _ _ => trivial
  constructor
  · have hsettled := hacc.settle (fun i => ⟨a i, hdone i⟩) (fun i _ B t hpost x hx => by
      obtain ⟨-, dropped, rfl, hall⟩ := hpost
      exact hall x (by simpa using hx))
    have htotal : total + ∑ i, pend i = ∑ i, pend' i + (offered tr + total) := by
      rw [hsum]
      abel
    rwa [htotal]
  · refine funext fun i => ?_
    have hi := hdone i ▸ hacc.accounts i
    cases hi with
    | done hpost => exact hpost.1

variable (S candidates) in
/-- When `n` iterations have ended the heap holds the nearest candidates of the clusters up to the
cursor. -/
structure LosslessBoundary (scan : FilteredScan K K (ExactFloat K)) (bs : List Batch) (n : Nat)
    (rowGroups : List (SearchedRowGroup K K (ExactFloat K))) (heap : H) : Prop where
  rowGroups_eq : ∃ order : List Batch, order.Perm bs ∧ rowGroups = order.map (scan.searched S n)
  heap : Primed scan.k (heapInitializationElement K) (upTo S candidates bs (scan.cursor n)) heap

omit [IsStrictOrderedRing K] in
theorem lt_top_of_mem_between {bs : List Batch}
    (hready : ∀ b ∈ bs, scan.LosslessReady std rows b (S b) (candidates b)) {b : Batch} (hb : b ∈ bs)
    {cursor cursor' : Nat} {x : KNNCandidate K} (hx : x ∈ between S candidates cursor cursor' b) :
    x.distance < ⊤ := by
  obtain ⟨c, -, hx⟩ := List.mem_flatMap.mp hx
  exact (hready b hb).finite c x hx

omit [IsStrictOrderedRing K] in
/-- The first iteration. -/
theorem losslessBoundary_sinking (hk : 0 < scan.k)
    (hready : ∀ b ∈ allBatches inputChunks, scan.LosslessReady std rows b (S b) (candidates b))
    {p : ScanPool K H (Fin threads) (List (SearchedRowGroup K K (ExactFloat K)))}
    {tr : List (Fin threads × ScanEvent K)}
    (hrun : Pool.Run (queueObj scan.k) ⟨initialHeap H, fun i =>
      scan.sinkThread std arrays (inputChunks i) ⟨0, [], []⟩⟩ tr p)
    {combined : Fin threads → List (SearchedRowGroup K K (ExactFloat K))}
    (hdone : ∀ i, p.task i = .done (combined i)) {order : List (Fin threads)}
    (horder : order.Perm (List.finRange threads)) :
    LosslessBoundary S candidates scan (allBatches inputChunks) 1 (order.flatMap combined)
      p.shared := by
  have hmem : ∀ i, ∀ b ∈ batches 0 [] (inputChunks i), b ∈ allBatches inputChunks :=
    fun i b hb => List.mem_flatMap.mpr ⟨i, List.mem_finRange i, hb⟩
  have hthread : ∀ i t, Accounts (fun _ _ => True)
      (fun found pend t => found = (batches 0 [] (inputChunks i)).map (scan.searched S 1) ∧
        Settled (fun x t => t ≤ x.distance) 0 pend t)
      ((batches 0 [] (inputChunks i)).flatMap (between S candidates 0 (scan.cursor 1)) :
        List (KNNCandidate K)) t
      (scan.sinkThread std arrays (inputChunks i) ⟨0, [], []⟩) := by
    intro i t
    rw [sinkThread_eq]
    refine (lossless_searchBatches_accounts (fun b hb => hready b (hmem i b hb)) t).bind
      fun found pend t' _ hpost => .done ?_
    rwa [List.nil_append]
  have hfinite : ∀ i, ∀ x ∈ ((batches 0 [] (inputChunks i)).flatMap
      (between S candidates 0 (scan.cursor 1)) : Multiset (KNNCandidate K)), x.distance < ⊤ := by
    intro i x hx
    obtain ⟨b, hb, hx⟩ := List.mem_flatMap.mp (Multiset.mem_coe.mp hx)
    exact lt_top_of_mem_between hready (hmem i b hb) hx
  obtain ⟨hprimed, rfl⟩ := primed_of_run (primed_initialHeap hk) hfinite (fun i => hthread i _) hrun
    hdone
  refine ⟨⟨order.flatMap fun i => batches 0 [] (inputChunks i), horder.flatMap_right _, ?_⟩, ?_⟩
  · rw [List.map_flatMap]
  · rwa [zero_add, sum_between_batches] at hprimed

omit [IsStrictOrderedRing K] in
/-- A follow-up iteration. -/
theorem losslessBoundary_iterating {bs : List Batch} {n : Nat} (hn : 0 < n)
    (hready : ∀ b ∈ bs, scan.LosslessReady std rows b (S b) (candidates b))
    {rowGroups : List (SearchedRowGroup K K (ExactFloat K))} {heap : H}
    (h : LosslessBoundary S candidates scan bs n rowGroups heap)
    {p : ScanPool K H (Fin rowGroups.length) (Searcher K K (ExactFloat K))}
    {tr : List (Fin rowGroups.length × ScanEvent K)}
    (hrun : Pool.Run (queueObj scan.k) (schedule arrays n rowGroups heap) tr p)
    {searchers : Fin rowGroups.length → Searcher K K (ExactFloat K)}
    (hdone : ∀ i, p.task i = .done (searchers i)) :
    LosslessBoundary S candidates scan bs (n + 1)
      (List.ofFn fun i => ((rowGroups.get i).1, searchers i)) p.shared := by
  obtain ⟨order, horder, heq⟩ := h.rowGroups_eq
  obtain ⟨b, hofFn, hget, htask⟩ := exists_task_batch arrays n heq heap
  have hperm : (List.ofFn b).Perm bs := hofFn ▸ horder
  have hmem : ∀ i, b i ∈ bs := fun i => hperm.mem_iff.mp (List.mem_ofFn.mpr ⟨i, rfl⟩)
  obtain ⟨hprimed, rfl⟩ := primed_of_run h.heap
    (fun i x hx => lt_top_of_mem_between hready (hmem i) (Multiset.mem_coe.mp hx))
    (fun i => htask i ▸ (hready _ (hmem i)).accounts_inRowGroup (cursor_succ hn).symm _ _) hrun hdone
  refine ⟨⟨List.ofFn b, hperm, ?_⟩, ?_⟩
  · simp only [hget, List.map_ofFn]
    rfl
  · rwa [sum_between_ofFn hperm, ← upTo_eq_add _ (cursor_le_succ hn)] at hprimed

end Boundary

/-! ## Reachable states -/

section Runs

variable {H : Type} [Heap H K] {threads : Nat} {inputChunks : Fin threads → List (List Nat)}
  {arrays : Nat → Nat → ProbeState (ExactFloat K)} {S : Batch → Searcher K K (ExactFloat K)}
  {candidates : Batch → Nat → List (KNNCandidate K)}

variable (scan std inputChunks arrays S candidates) in
/-- The phases that a run passes. -/
inductive LosslessReached : ScanState K K (ExactFloat K) H threads → Prop
  | sinking {p : ScanPool K H (Fin threads) (List (SearchedRowGroup K K (ExactFloat K)))}
      {tr : List (Fin threads × ScanEvent K)}
      (hrun : Pool.Run (queueObj scan.k) ⟨initialHeap H, fun i =>
        scan.sinkThread std arrays (inputChunks i) ⟨0, [], []⟩⟩ tr p) :
      LosslessReached (.sinking p)
  | iterating {n : Nat} {rowGroups : List (SearchedRowGroup K K (ExactFloat K))} {heap : H}
      {p : ScanPool K H (Fin rowGroups.length) (Searcher K K (ExactFloat K))}
      {tr : List (Fin rowGroups.length × ScanEvent K)} (hn : 0 < n)
      (h : LosslessBoundary S candidates scan (allBatches inputChunks) n rowGroups heap)
      (hrun : Pool.Run (queueObj scan.k) (schedule arrays n rowGroups heap) tr p) :
      LosslessReached (.iterating n rowGroups p)
  | source {n : Nat} {rowGroups : List (SearchedRowGroup K K (ExactFloat K))} {heap : H}
      (hn : 0 < n)
      (h : LosslessBoundary S candidates scan (allBatches inputChunks) n rowGroups heap)
      (hstop : scan.IsHeapFilledWithKValidResults heap ∨ n = scan.maxNumProbeIterations) :
      LosslessReached
        (.source n heap ((buildResultSetFromHeap scan.k heap).map KNNCandidate.index))

omit [IsStrictOrderedRing K] in
theorem losslessReached_tryFinalizeSinkPhase {n : Nat}
    {rowGroups : List (SearchedRowGroup K K (ExactFloat K))} {heap : H} (hn : 0 < n)
    (h : LosslessBoundary S candidates scan (allBatches inputChunks) n rowGroups heap) :
    LosslessReached scan std inputChunks arrays S candidates
      (scan.tryFinalizeSinkPhase arrays n rowGroups heap) := by
  rw [tryFinalizeSinkPhase]
  split
  · rename_i hstop
    exact .source hn h hstop
  · exact .iterating hn h (.refl _)

omit [IsStrictOrderedRing K] in
theorem losslessReached_of_run (hk : 0 < scan.k)
    (hready : ∀ b ∈ allBatches inputChunks, scan.LosslessReady std rows b (S b) (candidates b))
    {s : ScanState K K (ExactFloat K) H threads} {tr : List (ScanEvent K)}
    (h : scan.Run arrays (scan.start std arrays H inputChunks) tr s) :
    LosslessReached scan std inputChunks arrays S candidates s := by
  generalize hstart : scan.start std arrays H inputChunks = s₀ at h
  induction h with
  | refl =>
    subst hstart
    exact .sinking (.refl _)
  | snoc _ hs ih =>
    cases hs with
    | sink hstep =>
      cases ih with
      | sinking hrun => exact .sinking (.snoc hrun hstep)
    | finalize hdone horder =>
      cases ih with
      | sinking hrun =>
        exact losslessReached_tryFinalizeSinkPhase one_pos
          (losslessBoundary_sinking hk hready hrun hdone horder)
    | iterate hstep =>
      cases ih with
      | iterating hn h hrun => exact .iterating hn h (.snoc hrun hstep)
    | finishEvent hdone =>
      cases ih with
      | iterating hn h hrun =>
        exact losslessReached_tryFinalizeSinkPhase (Nat.succ_pos _)
          (losslessBoundary_iterating hn hready h hrun hdone)

end Runs

/-! ## The rows that are emitted -/

section Result

variable {H : Type} [Heap H K] {threads : Nat} {inputChunks : Fin threads → List (List Nat)}
  {arrays : Nat → Nat → ProbeState (ExactFloat K)}

omit [IsStrictOrderedRing K] in
/-- The candidates up to a cursor are those of the passing rows that were probed. -/
theorem upTo_perm_rows {S : Batch → Searcher K K (ExactFloat K)}
    {candidates : Batch → Nat → List (KNNCandidate K)}
    (hready : ∀ b ∈ allBatches inputChunks, scan.LosslessReady std rows b (S b) (candidates b))
    (cursor : Nat) :
    (upTo S candidates (allBatches inputChunks) cursor).Perm
      (((filterResult inputChunks).filter fun r => scan.isProbed std cursor r).map
        (rowCandidate rows scan.index.numDimensions scan.preprocessedQueryEmbedding)) := by
  rw [upTo, ← flatMap_allBatches, List.filter_flatMap, List.map_flatMap]
  exact List.Perm.flatMap_left _ fun b hb => (hready b hb).rows cursor

/-- The emitted rows are the nearest passing rows of the clusters that were probed, the nearest
first, and all clusters were probed unless there are as many as were asked for. If the first
iteration probes all clusters, they are the nearest of all passing rows. -/
structure ReturnsNearestPassing (scan : FilteredScan K K (ExactFloat K)) (std : StdSort) (H : Type)
    [Heap H K] (arrays : Nat → Nat → ProbeState (ExactFloat K))
    (rows : Nat → Option (EmbeddingBuffer K)) (inputChunks : Fin threads → List (List Nat)) :
    Prop where
  sorted : ∀ {tr n heap rowIds}, scan.Run arrays (scan.start std arrays H inputChunks) tr
      (.source n heap rowIds) →
    rowIds.Pairwise fun r r' => scan.distanceOf rows r ≤ scan.distanceOf rows r'
  nearest : ∀ {tr n heap rowIds}, scan.Run arrays (scan.start std arrays H inputChunks) tr
      (.source n heap rowIds) →
    IsKSmallest (scan.distanceOf rows) scan.limit
      ((filterResult inputChunks).filter fun r => scan.isProbed std (scan.cursor n) r) rowIds
  enough : ∀ {tr n heap rowIds}, scan.Run arrays (scan.start std arrays H inputChunks) tr
      (.source n heap rowIds) →
    rowIds.length = scan.limit ∨
      ∀ r ∈ filterResult inputChunks, scan.isProbed std (scan.cursor n) r = true
  exactly : ∀ {tr n heap rowIds}, scan.Run arrays (scan.start std arrays H inputChunks) tr
      (.source n heap rowIds) →
    scan.nProbe = 0 ∨ scan.index.numClustersPerRowGroup ≤ scan.nProbe →
    IsKSmallest (scan.distanceOf rows) scan.limit (filterResult inputChunks) rowIds

omit [Field K] [LinearOrder K] [IsStrictOrderedRing K] in
theorem cursor_eq_of_nProbe {n : Nat}
    (hprobe : scan.nProbe = 0 ∨ scan.index.numClustersPerRowGroup ≤ scan.nProbe) :
    scan.cursor n = scan.index.numClustersPerRowGroup := by
  rw [cursor, partitionsToProbePerRowGroupOnFirstIteration]
  refine min_eq_right ?_
  split <;> omega

omit [IsStrictOrderedRing K] in
/-- The result at the end of an iteration. -/
theorem LosslessBoundary.emitted {S : Batch → Searcher K K (ExactFloat K)}
    {candidates : Batch → Nat → List (KNNCandidate K)}
    (hready : ∀ b ∈ allBatches inputChunks, scan.LosslessReady std rows b (S b) (candidates b))
    (hlt : ∀ r ∈ filterResult inputChunks, r < 2 ^ 32) {n : Nat}
    {rowGroups : List (SearchedRowGroup K K (ExactFloat K))} {heap : H}
    (h : LosslessBoundary S candidates scan (allBatches inputChunks) n rowGroups heap) :
    IsKSmallest (scan.distanceOf rows) scan.k
        ((filterResult inputChunks).filter fun r => scan.isProbed std (scan.cursor n) r)
        ((buildResultSetFromHeap scan.k heap).map KNNCandidate.index) ∧
      ((buildResultSetFromHeap (K := K) scan.k heap).map KNNCandidate.index).Pairwise
        fun r r' => scan.distanceOf rows r ≤ scan.distanceOf rows r' := by
  obtain ⟨hsmallest, hsorted⟩ := buildResultSetFromHeap_spec h.heap
  rw [Multiset.coe_eq_coe.mpr (upTo_perm_rows hready (scan.cursor n))] at hsmallest
  exact isKSmallest_rows (fun r hr => hlt r (List.mem_filter.mp hr).1) hsmallest hsorted

/-- The rows that one run emits. -/
theorem emitted_nearest_of_run (std : StdSort)
    (hindex : scan.index.SetUpWith ctx quantizationF32 rows)
    (hpruners : LosslessPruners scan.index) (hk : 0 < scan.k)
    (hdelivered : Delivered inputChunks) (hrows : ∀ r ∈ filterResult inputChunks, IsRowOf rows r)
    (hlt : ∀ r ∈ filterResult inputChunks, r < 2 ^ 32)
    {arrays : Nat → Nat → ProbeState (ExactFloat K)} {tr : List (ScanEvent K)} {n : Nat} {heap : H}
    {rowIds : List Nat} (hrun : scan.Run arrays (scan.start std arrays H inputChunks) tr
      (.source n heap rowIds)) :
    IsKSmallest (scan.distanceOf rows) scan.k
        ((filterResult inputChunks).filter fun r => scan.isProbed std (scan.cursor n) r) rowIds ∧
      rowIds.Pairwise (fun r r' => scan.distanceOf rows r ≤ scan.distanceOf rows r') ∧
      (rowIds.length = scan.k ∨
        ∀ r ∈ filterResult inputChunks, scan.isProbed std (scan.cursor n) r = true) := by
  have hready : ∀ b, ∃ S candidates, b ∈ allBatches inputChunks →
      scan.LosslessReady std rows b S candidates := by
    intro b
    by_cases hb : b ∈ allBatches inputChunks
    · obtain ⟨i, -, hmem⟩ := List.mem_flatMap.mp hb
      obtain ⟨S, candidates, h⟩ := exists_losslessReady hindex hpruners
        (ne_nil_of_mem_batches hmem) (hdelivered.nodup_of_mem hb)
        (hdelivered.getRowGroupId_of_mem hb) fun r hr => hrows r
          (flatMap_allBatches inputChunks ▸ List.mem_flatMap.mpr ⟨b, hb, hr⟩)
      exact ⟨S, candidates, fun _ => h⟩
    · exact ⟨(scan.index.builtRowGroup ctx quantizationF32 id (fun _ => 0) 0).searcher, fun _ => [],
        fun h => absurd h hb⟩
  choose S candidates hready using hready
  cases losslessReached_of_run hk (fun b hb => hready b hb) hrun with
  | source _ h hstop =>
    obtain ⟨hnearest, hsorted⟩ := h.emitted hready hlt
    refine ⟨hnearest, hsorted, ?_⟩
    rcases hstop with hfilled | rfl
    · have hcard := hnearest.card_eq
      have hoffered := h.heap.topKey_eq_top_iff.not.mp hfilled.2
      rw [Multiset.coe_eq_coe.mpr (upTo_perm_rows hready _), Multiset.coe_card,
        List.length_map] at hoffered
      rw [Multiset.coe_card, Multiset.coe_card] at hcard
      exact Or.inl (by omega)
    · refine Or.inr fun r hr => hindex.isProbed_of_le (hrows r hr) ?_
      rw [cursor_maxNumProbeIterations]

omit [IsStrictOrderedRing K] in
/-- Where the first iteration probes all clusters. -/
theorem filter_isProbed (hindex : scan.index.SetUpWith ctx quantizationF32 rows)
    (hrows : ∀ r ∈ filterResult inputChunks, IsRowOf rows r)
    (hprobe : scan.nProbe = 0 ∨ scan.index.numClustersPerRowGroup ≤ scan.nProbe) (n : Nat) :
    ((filterResult inputChunks).filter fun r => scan.isProbed std (scan.cursor n) r) =
      filterResult inputChunks :=
  List.filter_eq_self.mpr fun r hr =>
    hindex.isProbed_of_le (hrows r hr) (cursor_eq_of_nProbe hprobe).ge

/-- F32 with lossless ratios: under every schedule, for row ids and a limit of 32 bits. -/
theorem returnsNearestPassing (std : StdSort) (H : Type) [Heap H K]
    (hindex : scan.index.SetUpWith ctx quantizationF32 rows)
    (hpruners : LosslessPruners scan.index) (hk : 0 < scan.limit) (hlimit : scan.limit < 2 ^ 32)
    (hdelivered : Delivered inputChunks) (hrows : ∀ r ∈ filterResult inputChunks, IsRowOf rows r)
    (hlt : ∀ r ∈ filterResult inputChunks, r < 2 ^ 32)
    (arrays : Nat → Nat → ProbeState (ExactFloat K)) :
    scan.ReturnsNearestPassing std H arrays rows inputChunks := by
  have hemitted : ∀ {tr n heap rowIds}, scan.Run arrays (scan.start std arrays H inputChunks) tr
      (.source n heap rowIds) → _ := fun hrun =>
    emitted_nearest_of_run std hindex hpruners (k_eq hlimit ▸ hk) hdelivered hrows hlt hrun
  simp only [k_eq hlimit] at hemitted
  refine ⟨fun hrun => (hemitted hrun).2.1, fun hrun => (hemitted hrun).1,
    fun hrun => (hemitted hrun).2.2, fun {tr n heap rowIds} hrun hprobe => ?_⟩
  have hnearest := (hemitted hrun).1
  rwa [filter_isProbed hindex hrows hprobe] at hnearest

end Result

/-- With one dimension the default aggressiveness is lossless. -/
theorem losslessPruners_firstRows :
    LosslessPruners (scanOf quantizationF32 1 0 firstRows).index := by
  intro g rowGroup hrowGroup
  simp only [scanOf, PDXearchWrapperParallel.setUpIndexForRowGroup, Function.update_apply]
    at hrowGroup
  split at hrowGroup
  · obtain rfl := Option.some.inj hrowGroup
    refine ⟨rfl, fun d hd => ?_⟩
    obtain rfl : d = 0 := Nat.lt_one_iff.mp hd
    exact le_rfl
  · cases hrowGroup

theorem returnsNearestPassing_firstRows :
    (scanOf quantizationF32 1 0 firstRows).ReturnsNearestPassing StdSort.insertion
      (SortedQueue (KNNCandidate.distance (K := Rat)))
      (fun _ _ => .const (ofReal 0))
      (Function.update (fun _ => none) 0 (some firstRows)) (fun _ : Fin 1 => [[0, 1]]) :=
  have hgroup : ∀ e < firstRows.count, getRowGroupId (firstRows.rowIds e) = 0 := by decide
  returnsNearestPassing StdSort.insertion _
    (scanOf_setUpWith quantizationF32 one_pos Function.injective_id hgroup)
    losslessPruners_firstRows one_pos (by decide) (delivered_singleton (by decide) (by decide))
    firstRows_isRowOf (by decide) _

end FilteredScan

end PDXearch
