import PDXearch.Scan.FilteredScanRuns

/-!
# The result of the filtered scan

Every reachable state is on the way from the end of one iteration to the end of the next one
(`Reached`). So the scan ends, after at most the greatest number of iterations, no cluster is
probed twice, and what it emits are the low 32 bits of `k` rows of the filter result, or of all of
them. They are row ids of the filter result as long as these have 32 bits.
-/

namespace PDXearch

open Lib ExactFloat PriorityQueue

namespace FilteredScan

variable {K E D : Type} [Zero E] [Field K] [LinearOrder K] [LinearOrder D]
  {scan : FilteredScan K E D} {std : StdSort} {H : Type} [Heap H K] {threads : Nat}
  {inputChunks : Fin threads → List (List Nat)} {arrays : Nat → Nat → ProbeState D}
  {S : Batch → Searcher K E D} {candidates : Batch → Nat → List (KNNCandidate K)}

/-! ## Reachable states -/

variable (scan std inputChunks arrays S candidates) in
/-- The phases that a run passes, with the trace up to now. -/
inductive Reached : ScanState K E D H threads → List (ScanEvent K) → Prop
  | sinking {p : ScanPool K H (Fin threads) (List (SearchedRowGroup K E D))}
      {tr : List (Fin threads × ScanEvent K)}
      (hrun : Pool.Run (queueObj scan.k) ⟨initialHeap H, fun i =>
        scan.sinkThread std arrays (inputChunks i) ⟨0, [], []⟩⟩ tr p) :
      Reached (.sinking p) (tr.map Prod.snd)
  | iterating {n : Nat} {rowGroups : List (SearchedRowGroup K E D)} {heap : H}
      {tr₀ : List (ScanEvent K)} {p : ScanPool K H (Fin rowGroups.length) (Searcher K E D)}
      {tr : List (Fin rowGroups.length × ScanEvent K)} (hn : 0 < n)
      (hlt : n < scan.maxNumProbeIterations)
      (h : Boundary S candidates scan (allBatches inputChunks) n rowGroups heap tr₀)
      (hrun : Pool.Run (queueObj scan.k) (schedule arrays n rowGroups heap) tr p) :
      Reached (.iterating n rowGroups p) (tr₀ ++ tr.map Prod.snd)
  | source {n : Nat} {rowGroups : List (SearchedRowGroup K E D)} {heap : H}
      {tr : List (ScanEvent K)} (hle : n ≤ scan.maxNumProbeIterations)
      (h : Boundary S candidates scan (allBatches inputChunks) n rowGroups heap tr)
      (hstop : scan.IsHeapFilledWithKValidResults heap ∨ n = scan.maxNumProbeIterations) :
      Reached (.source n heap ((buildResultSetFromHeap scan.k heap).map KNNCandidate.index)) tr

/-- What the scheduler does at the end of an iteration. -/
theorem reached_tryFinalizeSinkPhase {n : Nat} {rowGroups : List (SearchedRowGroup K E D)}
    {heap : H} {tr : List (ScanEvent K)} (hn : 0 < n) (hle : n ≤ scan.maxNumProbeIterations)
    (h : Boundary S candidates scan (allBatches inputChunks) n rowGroups heap tr) :
    Reached scan std inputChunks arrays S candidates
      (scan.tryFinalizeSinkPhase arrays n rowGroups heap) tr := by
  rw [tryFinalizeSinkPhase]
  split
  · rename_i hstop
    exact .source hle h hstop
  · rename_i hstop
    have hne : n ≠ scan.maxNumProbeIterations := fun heq => hstop (Or.inr heq)
    have hreached : Reached scan std inputChunks arrays S candidates
        (.iterating n rowGroups (schedule arrays n rowGroups heap)) (tr ++ [].map Prod.snd) :=
      .iterating hn (by omega) h (.refl _)
    rwa [List.map_nil, List.append_nil] at hreached

theorem Reached.step (hk : 0 < scan.k)
    (hready : ∀ b ∈ allBatches inputChunks, scan.Ready std b (S b) (candidates b))
    {s s' : ScanState K E D H threads} {tr tr' : List (ScanEvent K)}
    (h : Reached scan std inputChunks arrays S candidates s tr) (hs : scan.Step arrays s tr' s') :
    Reached scan std inputChunks arrays S candidates s' (tr ++ tr') := by
  cases hs with
  | sink hstep =>
    cases h with
    | @sinking p tr hrun =>
      rw [← List.map_singleton (f := Prod.snd), ← List.map_append]
      exact .sinking (.snoc hrun hstep)
  | finalize hdone horder =>
    cases h with
    | sinking hrun =>
      rw [List.append_nil]
      exact reached_tryFinalizeSinkPhase one_pos maxNumProbeIterations_pos
        (boundary_sinking hk hready hrun hdone horder)
  | iterate hstep =>
    cases h with
    | iterating hn hlt h hrun =>
      rw [List.append_assoc, ← List.map_singleton (f := Prod.snd), ← List.map_append]
      exact .iterating hn hlt h (.snoc hrun hstep)
  | finishEvent hdone =>
    cases h with
    | iterating hn hlt h hrun =>
      rw [List.append_nil]
      exact reached_tryFinalizeSinkPhase (Nat.succ_pos _) hlt
        (boundary_iterating hn hready h hrun hdone)

theorem reached_of_run (hk : 0 < scan.k)
    (hready : ∀ b ∈ allBatches inputChunks, scan.Ready std b (S b) (candidates b))
    {s : ScanState K E D H threads} {tr : List (ScanEvent K)}
    (h : scan.Run arrays (scan.start std arrays H inputChunks) tr s) :
    Reached scan std inputChunks arrays S candidates s tr := by
  generalize hstart : scan.start std arrays H inputChunks = s₀ at h
  induction h with
  | refl =>
    subst hstart
    exact .sinking (.refl _)
  | snoc _ hs ih => exact ih.step hk hready hs

/-! ## No cluster is probed twice -/

omit [Zero E] [Field K] [LinearOrder K] [LinearOrder D] in
theorem nodup_upTo (hbs : ((allBatches inputChunks).map Prod.fst).Nodup)
    (horder : ∀ b ∈ allBatches inputChunks, (S b).clusterIndicesInAccessOrder.Nodup)
    (cursor : Nat) : (upTo S rowGroupCluster (allBatches inputChunks) cursor).Nodup := by
  have hmap : ∀ (b : Batch) (L : List Nat), L.flatMap (rowGroupCluster b) = L.map (Prod.mk b.1) :=
    fun _ _ => List.map_eq_flatMap.symm
  simp only [upTo, hmap]
  refine nodup_flatMap_map (List.Nodup.of_map _ hbs)
    (fun b hb => (horder b hb).sublist (List.take_sublist _ _)) fun b hb c _ b' hb' c' _ heq => ?_
  obtain ⟨hgroup, hcluster⟩ := Prod.mk.inj heq
  exact ⟨List.inj_on_of_nodup_map hbs hb hb' hgroup, hcluster⟩

/-- The clusters that were probed are among those that come first in each access order. -/
theorem Reached.notes_le
    (hready : ∀ b ∈ allBatches inputChunks, scan.Ready std b (S b) (candidates b))
    {s : ScanState K E D H threads} {tr : List (ScanEvent K)}
    (h : Reached scan std inputChunks arrays S candidates s tr) :
    ∃ cursor, (notes tr : Multiset (Nat × Nat)) ≤
      upTo S rowGroupCluster (allBatches inputChunks) cursor := by
  cases h with
  | sinking hrun =>
    obtain ⟨l, -, hsum⟩ := notes_sinking hready hrun
    exact ⟨_, hsum ▸ Multiset.le_add_right _ _⟩
  | iterating hn _ h hrun =>
    obtain ⟨l, -, hsum⟩ := notes_iterating hn hready h hrun
    exact ⟨_, hsum ▸ Multiset.le_add_right _ _⟩
  | source _ h _ => exact ⟨_, h.notes.le⟩

/-! ## The end of the scan -/

variable (scan arrays) in
/-- The steps of the scan, backwards. -/
def StepsFrom (s' s : ScanState K E D H threads) : Prop := ∃ tr, scan.Step arrays s tr s'

theorem acc_source {n : Nat} {heap : H} {rowIds : List Nat} :
    Acc (StepsFrom scan arrays) (.source n heap rowIds : ScanState K E D H threads) := by
  refine ⟨_, fun s' hs => ?_⟩
  obtain ⟨tr, hs⟩ := hs
  cases hs

/-- An iteration ends. -/
theorem acc_iterating_of {n : Nat} {rowGroups : List (SearchedRowGroup K E D)}
    (h : ∀ rowGroups' (heap : H), Acc (StepsFrom scan arrays)
      (scan.tryFinalizeSinkPhase arrays (n + 1) rowGroups' heap : ScanState K E D H threads))
    (p : ScanPool K H (Fin rowGroups.length) (Searcher K E D)) :
    Acc (StepsFrom scan arrays) (.iterating n rowGroups p : ScanState K E D H threads) := by
  have hwf : WellFounded fun q p : ScanPool K H (Fin rowGroups.length) (Searcher K E D) =>
      ∃ e, Pool.Step (queueObj scan.k) p e q := Pool.wellFounded_step
  induction p using hwf.induction with
  | _ p ih =>
    refine ⟨_, fun s' hs => ?_⟩
    obtain ⟨tr, hs⟩ := hs
    cases hs with
    | iterate hstep => exact ih _ ⟨_, hstep⟩
    | finishEvent hdone => exact h _ _

theorem acc_sinking_of
    (h : ∀ rowGroups (heap : H), Acc (StepsFrom scan arrays)
      (scan.tryFinalizeSinkPhase arrays 1 rowGroups heap : ScanState K E D H threads))
    (p : ScanPool K H (Fin threads) (List (SearchedRowGroup K E D))) :
    Acc (StepsFrom scan arrays) (.sinking p : ScanState K E D H threads) := by
  have hwf : WellFounded fun q p : ScanPool K H (Fin threads) (List (SearchedRowGroup K E D)) =>
      ∃ e, Pool.Step (queueObj scan.k) p e q := Pool.wellFounded_step
  induction p using hwf.induction with
  | _ p ih =>
    refine ⟨_, fun s' hs => ?_⟩
    obtain ⟨tr, hs⟩ := hs
    cases hs with
    | sink hstep => exact ih _ ⟨_, hstep⟩
    | finalize hdone horder => exact h _ _

/-- From the end of an iteration on the scan ends, since there are only so many iterations. -/
theorem acc_tryFinalizeSinkPhase {n d : Nat} (hd : n + d = scan.maxNumProbeIterations)
    (rowGroups : List (SearchedRowGroup K E D)) (heap : H) :
    Acc (StepsFrom scan arrays)
      (scan.tryFinalizeSinkPhase arrays n rowGroups heap : ScanState K E D H threads) := by
  induction d generalizing n rowGroups heap with
  | zero =>
    rw [tryFinalizeSinkPhase, if_pos (Or.inr ((Nat.add_zero n).symm.trans hd))]
    exact acc_source
  | succ d ih =>
    rw [tryFinalizeSinkPhase]
    split
    · exact acc_source
    · exact acc_iterating_of (fun rowGroups' heap' => ih (by omega) rowGroups' heap') _

/-- There is a next step before the phase of the source. -/
theorem exists_step (s : ScanState K E D H threads) :
    (∃ n heap rowIds, s = .source n heap rowIds) ∨ ∃ tr s', scan.Step arrays s tr s' := by
  cases s with
  | sinking p =>
    refine Or.inr ?_
    by_cases hfin : p.Finished
    · choose combined hcombined using hfin
      exact ⟨_, _, .finalize hcombined (List.Perm.refl _)⟩
    · obtain ⟨e, q, hstep⟩ := Pool.exists_step hfin
      exact ⟨_, _, .sink hstep⟩
  | iterating n rowGroups p =>
    refine Or.inr ?_
    by_cases hfin : p.Finished
    · choose searchers hsearchers using hfin
      exact ⟨_, _, .finishEvent hsearchers⟩
    · obtain ⟨e, q, hstep⟩ := Pool.exists_step hfin
      exact ⟨_, _, .iterate hstep⟩
  | source n heap rowIds => exact Or.inl ⟨n, heap, rowIds, rfl⟩

/-! ## What is emitted -/

/-- The candidates of all clusters have the low 32 bits of the filter result. -/
theorem upTo_candidates_perm
    (hready : ∀ b ∈ allBatches inputChunks, scan.Ready std b (S b) (candidates b)) :
    ((upTo S candidates (allBatches inputChunks) scan.index.numClustersPerRowGroup).map
      KNNCandidate.index).Perm ((filterResult inputChunks).map (· % 2 ^ 32)) := by
  rw [upTo, List.map_flatMap, ← flatMap_allBatches, List.map_flatMap]
  refine List.Perm.flatMap_left _ fun b hb => ?_
  have hlength := (hready b hb).order.length_eq
  rw [List.length_range] at hlength
  rw [List.take_of_length_le hlength.le]
  exact (hready b hb).rows

omit [Zero E] [Field K] [LinearOrder K] [LinearOrder D] in
theorem cursor_le {n : Nat} : scan.cursor n ≤ scan.index.numClustersPerRowGroup := min_le_right _ _

/-- The rows that are emitted, and their number. -/
theorem Boundary.emitted
    (hready : ∀ b ∈ allBatches inputChunks, scan.Ready std b (S b) (candidates b))
    {n : Nat} {rowGroups : List (SearchedRowGroup K E D)} {heap : H} {tr : List (ScanEvent K)}
    (h : Boundary S candidates scan (allBatches inputChunks) n rowGroups heap tr)
    (hstop : scan.IsHeapFilledWithKValidResults heap ∨ n = scan.maxNumProbeIterations) :
    (((buildResultSetFromHeap scan.k heap).map KNNCandidate.index : List Nat) :
        Multiset Nat) ≤ ((filterResult inputChunks).map (· % 2 ^ 32) : List Nat) ∧
      (buildResultSetFromHeap (K := K) scan.k heap).length =
        min scan.k (filterResult inputChunks).length := by
  obtain ⟨offered, dropped, hprimed, htotal, hdropped⟩ := h.heap
  obtain ⟨hsmallest, -⟩ := buildResultSetFromHeap_spec hprimed
  have hperm := Multiset.coe_eq_coe.mpr (upTo_candidates_perm hready)
  have hcard := congrArg Multiset.card hperm
  rw [Multiset.coe_card, Multiset.coe_card, List.length_map, List.length_map] at hcard
  have hle : offered ≤ (upTo S candidates (allBatches inputChunks)
      scan.index.numClustersPerRowGroup : Multiset (KNNCandidate K)) := by
    rw [upTo_eq_add _ cursor_le, htotal, add_assoc]
    exact Multiset.le_add_right _ _
  constructor
  · rw [← hperm, ← Multiset.map_coe, ← Multiset.map_coe]
    exact Multiset.map_le_map (hsmallest.le.trans hle)
  · have hlength := hsmallest.card_eq
    rw [Multiset.coe_card] at hlength
    have hoffered := Multiset.card_le_card hle
    rw [Multiset.coe_card, hcard] at hoffered
    rw [hlength]
    by_cases htop : topKey heap = ⊤
    · -- every candidate was offered
      have hall : dropped = 0 := by
        by_contra hne
        exact hdropped hne htop
      obtain rfl := hstop.resolve_left fun hfilled => hfilled.2 htop
      rw [hall, add_zero, cursor_maxNumProbeIterations] at htotal
      rw [← htotal, Multiset.coe_card, hcard]
    · have hfull := mt hprimed.topKey_eq_top_iff.mpr htop
      omega

/-! ## Every run -/

/-- The scan ends, in time and not too early, probes no cluster twice, and emits as many row ids of
the filter result as the limit says, or all of them. -/
structure ReturnsMinKRows (scan : FilteredScan K E D) (std : StdSort) (H : Type) [Heap H K]
    (arrays : Nat → Nat → ProbeState D) (inputChunks : Fin threads → List (List Nat)) : Prop where
  terminates : Acc (fun s' s => ∃ tr, scan.Step arrays s tr s') (scan.start std arrays H inputChunks)
  progress : ∀ {tr s}, scan.Run arrays (scan.start std arrays H inputChunks) tr s →
    (∃ n heap rowIds, s = .source n heap rowIds) ∨ ∃ tr' s', scan.Step arrays s tr' s'
  iterating_lt : ∀ {tr n rowGroups p}, scan.Run arrays (scan.start std arrays H inputChunks) tr
    (.iterating n rowGroups p) → n < scan.maxNumProbeIterations
  source_le : ∀ {tr n heap rowIds}, scan.Run arrays (scan.start std arrays H inputChunks) tr
    (.source n heap rowIds) → n ≤ scan.maxNumProbeIterations
  probedOnce : ∀ {tr s}, scan.Run arrays (scan.start std arrays H inputChunks) tr s →
    (notes tr).Nodup
  filled_or_probed : ∀ {tr n heap rowIds}, scan.Run arrays (scan.start std arrays H inputChunks) tr
      (.source n heap rowIds) →
    (size heap = scan.limit ∧ heapInitializationElement K ∉ elems heap) ∨
      ∀ r ∈ filterResult inputChunks, ∀ c < scan.index.numClustersPerRowGroup,
        (getRowGroupId r, c) ∈ notes tr
  rowIds : ∀ {tr n heap rowIds}, scan.Run arrays (scan.start std arrays H inputChunks) tr
      (.source n heap rowIds) →
    rowIds.Nodup ∧ (∀ r ∈ rowIds, r ∈ filterResult inputChunks) ∧
      rowIds.length = min scan.limit (filterResult inputChunks).length

section Runs

variable {M : Type} [AddCommMonoid M] {ctx : BuildContext K E} {Q : QuantizationOf K E D}
  {rows : Nat → Option (EmbeddingBuffer K)}

/-- The searches of the batches of indexed rows. -/
theorem exists_ready_batches (std : StdSort) (hindex : scan.index.SetUpWith ctx Q rows)
    (hM : ∀ buffer : EmbeddingBuffer K, Measured (scan.index.builtRowGroup ctx Q buffer.rowIds
      buffer.embeddings buffer.count).searcher.pdxData M)
    (hdelivered : Delivered inputChunks) (hrows : ∀ r ∈ filterResult inputChunks, IsRowOf rows r) :
    ∃ (S : Batch → Searcher K E D) (candidates : Batch → Nat → List (KNNCandidate K)),
      ∀ b ∈ allBatches inputChunks, scan.Ready std b (S b) (candidates b) := by
  have hready : ∀ b, ∃ S candidates, b ∈ allBatches inputChunks → scan.Ready std b S candidates := by
    intro b
    by_cases hb : b ∈ allBatches inputChunks
    · obtain ⟨i, -, hmem⟩ := List.mem_flatMap.mp hb
      obtain ⟨S, candidates, h⟩ := exists_ready hindex.consistent (hindex.measured hM)
        (ne_nil_of_mem_batches hmem) (hdelivered.nodup_of_mem hb)
        (hdelivered.getRowGroupId_of_mem hb) fun r hr => hindex.isIndexed (hrows r
          (flatMap_allBatches inputChunks ▸ List.mem_flatMap.mpr ⟨b, hb, hr⟩))
      exact ⟨S, candidates, fun _ => h⟩
    · exact ⟨(scan.index.builtRowGroup ctx Q id (fun _ => 0) 0).searcher, fun _ => [],
        fun h => absurd h hb⟩
  choose S candidates hready using hready
  exact ⟨S, candidates, fun b hb => hready b hb⟩

variable (hindex : scan.index.SetUpWith ctx Q rows)
  (hM : ∀ buffer : EmbeddingBuffer K, Measured (scan.index.builtRowGroup ctx Q buffer.rowIds
    buffer.embeddings buffer.count).searcher.pdxData M) (hk : 0 < scan.k)
  (hdelivered : Delivered inputChunks) (hrows : ∀ r ∈ filterResult inputChunks, IsRowOf rows r)

include hindex hM hk hdelivered hrows

/-- What the scan emits are low 32 bits of rows of the filter result. -/
theorem emitted_of_run {tr : List (ScanEvent K)} {n : Nat} {heap : H} {rowIds : List Nat}
    (h : scan.Run arrays (scan.start std arrays H inputChunks) tr (.source n heap rowIds)) :
    (rowIds : Multiset Nat) ≤ ((filterResult inputChunks).map (· % 2 ^ 32) : List Nat) ∧
      rowIds.length = min scan.k (filterResult inputChunks).length := by
  obtain ⟨S, candidates, hready⟩ :=
    exists_ready_batches std hindex hM hdelivered hrows
  cases reached_of_run hk hready h with
  | source _ hboundary hstop =>
    rw [List.length_map]
    exact hboundary.emitted hready hstop

theorem returnsMinKRows_of_lt (std : StdSort) (H : Type) [Heap H K]
    (arrays : Nat → Nat → ProbeState D) (hlimit : scan.limit < 2 ^ 32)
    (hlt : ∀ r ∈ filterResult inputChunks, r < 2 ^ 32) :
    scan.ReturnsMinKRows std H arrays inputChunks := by
  obtain ⟨S, candidates, hready⟩ :=
    exists_ready_batches std hindex hM hdelivered hrows
  have hreached : ∀ {tr s}, scan.Run arrays (scan.start std arrays H inputChunks) tr s →
      Reached scan std inputChunks arrays S candidates s tr := reached_of_run hk hready
  refine ⟨?_, fun _ => exists_step _, fun hrun => ?_, fun hrun => ?_, fun hrun => ?_,
    fun hrun => ?_, fun hrun => ?_⟩
  · exact acc_sinking_of (fun rowGroups heap => acc_tryFinalizeSinkPhase
      (Nat.add_sub_cancel' maxNumProbeIterations_pos) rowGroups heap) _
  · cases hreached hrun with
    | iterating _ hlt _ _ => exact hlt
  · cases hreached hrun with
    | source hle _ _ => exact hle
  · obtain ⟨cursor, hle⟩ := (hreached hrun).notes_le hready
    refine Multiset.coe_nodup.mp (Multiset.nodup_of_le hle (Multiset.coe_nodup.mpr ?_))
    exact nodup_upTo hdelivered.nodup_rowGroupIds
      (fun b hb => (hready b hb).order.nodup_iff.mpr List.nodup_range) cursor
  · cases hreached hrun with
    | source _ hboundary hstop =>
      rcases hstop with hfilled | rfl
      · obtain ⟨offered, dropped, hprimed, -, -⟩ := hboundary.heap
        refine Or.inl ⟨hfilled.1, fun hmem => hfilled.2 ?_⟩
        exact hprimed.topKey_eq_top_iff.mpr (hprimed.sentinel_mem_iff.mp hmem)
      · refine Or.inr fun r hr c hc => ?_
        rw [← flatMap_allBatches] at hr
        obtain ⟨b, hb, hr⟩ := List.mem_flatMap.mp hr
        have hnotes := hboundary.notes
        rw [cursor_maxNumProbeIterations] at hnotes
        refine Multiset.mem_coe.mp (hnotes ▸ Multiset.mem_coe.mpr (List.mem_flatMap.mpr
          ⟨b, hb, List.mem_flatMap.mpr ⟨c, ?_, ?_⟩⟩))
        · have horder := (hready b hb).order
          rw [List.take_of_length_le (by rw [horder.length_eq, List.length_range])]
          exact horder.mem_iff.mpr (List.mem_range.mpr hc)
        · rw [rowGroupCluster, hdelivered.getRowGroupId_of_mem hb r hr]
          exact List.mem_singleton_self _
  · obtain ⟨hle, hlength⟩ := emitted_of_run hindex hM hk hdelivered hrows hrun
    have hid : (filterResult inputChunks).map (· % 2 ^ 32) = filterResult inputChunks :=
      (List.map_congr_left fun r hr => Nat.mod_eq_of_lt (hlt r hr)).trans (List.map_id' _)
    rw [hid] at hle
    rw [k_eq hlimit] at hlength
    exact ⟨Multiset.coe_nodup.mp (Multiset.nodup_of_le hle (Multiset.coe_nodup.mpr
      hdelivered.nodup)), fun r hr => Multiset.mem_coe.mp (Multiset.mem_of_le hle hr), hlength⟩

end Runs

/-- The scan gets to the source. -/
theorem exists_run_source (h : Acc (StepsFrom scan arrays) (scan.start std arrays H inputChunks)) :
    ∃ tr n heap rowIds,
      scan.Run arrays (scan.start std arrays H inputChunks) tr (.source n heap rowIds) := by
  have hfrom : ∀ s, Acc (StepsFrom scan arrays) s → ∀ tr,
      scan.Run arrays (scan.start std arrays H inputChunks) tr s → ∃ tr' n heap rowIds,
        scan.Run arrays (scan.start std arrays H inputChunks) tr' (.source n heap rowIds) := by
    intro s hs
    induction hs with
    | intro s _ ih =>
      intro tr hrun
      rcases exists_step s with ⟨n, heap, rowIds, rfl⟩ | ⟨tr', s', hstep⟩
      · exact ⟨tr, n, heap, rowIds, hrun⟩
      · exact ih s' ⟨tr', hstep⟩ _ (.snoc hrun hstep)
  exact hfrom _ h [] (.refl _)

section Main

variable {K : Type} [Field K] [LinearOrder K] [FloorRing K]

/-- F32 and U8: under every schedule, for row ids and a limit of 32 bits. -/
theorem returnsMinKRows (std : StdSort) (H : Type) [Heap H K]
    {ctx : BuildContext K K} {scan : FilteredScan K K (ExactFloat K)}
    {rows : Nat → Option (EmbeddingBuffer K)} (hindex : scan.index.SetUpWith ctx quantizationF32 rows)
    (hk : 0 < scan.limit) (hlimit : scan.limit < 2 ^ 32) {threads : Nat}
    {inputChunks : Fin threads → List (List Nat)}
    (hdelivered : Delivered inputChunks) (hrows : ∀ r ∈ filterResult inputChunks, IsRowOf rows r)
    (hlt : ∀ r ∈ filterResult inputChunks, r < 2 ^ 32)
    (arrays : Nat → Nat → ProbeState (ExactFloat K))
    {ctx' : BuildContext K UInt8} {maxValue : UInt8} {scan' : FilteredScan K UInt8 Nat}
    {rows' : Nat → Option (EmbeddingBuffer K)}
    (hindex' : scan'.index.SetUpWith ctx' (quantizationU8 maxValue) rows')
    (hdims : scan'.index.numDimensions ≤ pdxMaxDims) (hk' : 0 < scan'.limit)
    (hlimit' : scan'.limit < 2 ^ 32) {threads' : Nat}
    {inputChunks' : Fin threads' → List (List Nat)} (hdelivered' : Delivered inputChunks')
    (hrows' : ∀ r ∈ filterResult inputChunks', IsRowOf rows' r)
    (hlt' : ∀ r ∈ filterResult inputChunks', r < 2 ^ 32) (arrays' : Nat → Nat → ProbeState Nat) :
    scan.ReturnsMinKRows std H arrays inputChunks ∧
      scan'.ReturnsMinKRows std H arrays' inputChunks' := by
  constructor
  · exact returnsMinKRows_of_lt hindex (fun _ => measured_f32 rfl) (k_eq hlimit ▸ hk) hdelivered
      hrows std H arrays hlimit hlt
  · exact returnsMinKRows_of_lt hindex' (fun _ => measured_u8 rfl hdims) (k_eq hlimit' ▸ hk')
      hdelivered' hrows' std H arrays' hlimit' hlt'

end Main

/-! ## Two scans -/

/-- One thread that gets one chunk of one row group. -/
theorem delivered_singleton {chunk : List Nat} (hnodup : chunk.Nodup)
    (hgroup : ∀ r ∈ chunk, getRowGroupId r = getRowGroupId (chunk.headD 0)) :
    Delivered fun _ : Fin 1 => [chunk] := by
  refine .of_oneThread (by simpa using hnodup) ⟨by simpa using hgroup, ?_⟩
  rw [List.flatten_singleton]
  exact List.pairwise_of_forall_mem_list fun r hr r' hr' =>
    ((hgroup r hr).trans (hgroup r' hr').symm).le

section Examples

variable {E D : Type} [Zero E] (Q : QuantizationOf Rat E D)

/-- An index with one row group, and a scan for one row. -/
def scanOf (numClusters rowGroupId : Nat) (rows : EmbeddingBuffer Rat) : FilteredScan Rat E D where
  limit := 1
  preprocessedQueryEmbedding := fun _ => 0
  nProbe := 0
  index := PDXearchWrapperParallel.setUpIndexForRowGroup
    ⟨⟨1, false, 0, fun _ => 1⟩, numClusters, rowGroupId + 1, fun _ => none⟩ (.roundRobin Rat E) Q
    rows.rowIds rows.embeddings rows.count rowGroupId

theorem scanOf_setUpWith {numClusters rowGroupId : Nat} (hpos : 0 < numClusters)
    {rows : EmbeddingBuffer Rat} (hdistinct : Function.Injective rows.rowIds)
    (hgroup : ∀ e < rows.count, getRowGroupId (rows.rowIds e) = rowGroupId) :
    (scanOf Q numClusters rowGroupId rows).index.SetUpWith (.roundRobin Rat E) Q
      (Function.update (fun _ => none) rowGroupId (some rows)) := by
  have hempty : PDXearchWrapperParallel.SetUpWith
      (⟨⟨1, false, 0, fun _ => 1⟩, numClusters, rowGroupId + 1, fun _ => none⟩ :
        PDXearchWrapperParallel Rat E D) (.roundRobin Rat E) Q fun _ => none :=
    ⟨fun _ _ h => (Option.some_ne_none _ h.symm).elim, fun _ => .none⟩
  exact hempty.setUpIndexForRowGroup ⟨fun _ _ _ _ h => hdistinct h, hgroup,
    BuildContext.roundRobin_inRange _ _ hpos⟩

end Examples

/-- Rows 0 and 1 of a small table. -/
def firstRows : EmbeddingBuffer Rat := ⟨2, fun e => e, id⟩

theorem firstRows_isRowOf : ∀ r ∈ filterResult fun _ : Fin 1 => [[0, 1]],
    IsRowOf (Function.update (fun _ => none) 0 (some firstRows)) r := by
  intro r hr
  have hlt : r < 2 := by
    have hall : ∀ r ∈ filterResult fun _ : Fin 1 => [[0, 1]], r < 2 := by decide
    exact hall r hr
  have hgroup : getRowGroupId r = 0 := Nat.div_eq_of_lt (by rw [defaultRowGroupSize]; omega)
  rw [IsRowOf, hgroup, Function.update_self]
  exact ⟨firstRows, rfl, r, hlt, rfl⟩

theorem returnsMinKRows_firstRows :
    (scanOf quantizationF32 1 0 firstRows).ReturnsMinKRows StdSort.insertion
        (SortedQueue (KNNCandidate.distance (K := Rat)))
        (fun _ _ => .const (ofReal 0)) (fun _ : Fin 1 => [[0, 1]]) ∧
      (scanOf (quantizationU8 255) 1 0 firstRows).ReturnsMinKRows StdSort.insertion
        (SortedQueue (KNNCandidate.distance (K := Rat)))
        (fun _ _ => .const 0) (fun _ : Fin 1 => [[0, 1]]) :=
  have hgroup : ∀ e < firstRows.count, getRowGroupId (firstRows.rowIds e) = 0 := by decide
  returnsMinKRows StdSort.insertion _
    (scanOf_setUpWith quantizationF32 one_pos Function.injective_id hgroup) one_pos (by decide)
    (delivered_singleton (by decide) (by decide)) firstRows_isRowOf (by decide) _
    (scanOf_setUpWith (quantizationU8 255) one_pos Function.injective_id hgroup) (by decide) one_pos
    (by decide) (delivered_singleton (by decide) (by decide)) firstRows_isRowOf (by decide) _

/-- The last row group of a table of more than `2 ^ 32` rows. -/
def lastRows : EmbeddingBuffer Rat := ⟨122880, fun _ => 0, fun e => 34952 * 122880 + e⟩

/-- The one row that the filter lets pass has the id `2 ^ 32`, and the scan emits the row id 0. -/
theorem not_returnsMinKRows_lastRows :
    (scanOf quantizationF32 480 34952 lastRows).index.SetUpWith (.roundRobin Rat Rat)
        quantizationF32 (Function.update (fun _ => none) 34952 (some lastRows)) ∧
      (∀ r ∈ filterResult fun _ : Fin 1 => [[2 ^ 32]],
        IsRowOf (Function.update (fun _ => none) 34952 (some lastRows)) r) ∧
      Delivered (fun _ : Fin 1 => [[2 ^ 32]]) ∧
      ¬ (scanOf quantizationF32 480 34952 lastRows).ReturnsMinKRows StdSort.insertion
        (SortedQueue (KNNCandidate.distance (K := Rat)))
        (fun _ _ => .const (ofReal 0))
        (fun _ : Fin 1 => [[2 ^ 32]]) := by
  have hgroup : ∀ e < lastRows.count, getRowGroupId (lastRows.rowIds e) = 34952 := by
    intro e he
    simp only [lastRows, getRowGroupId, defaultRowGroupSize] at he ⊢
    omega
  have hindex := scanOf_setUpWith quantizationF32 (by decide : 0 < 480)
    (fun _ _ h => Nat.add_left_cancel h) hgroup
  have hrows : ∀ r ∈ filterResult fun _ : Fin 1 => [[2 ^ 32]],
      IsRowOf (Function.update (fun _ => none) 34952 (some lastRows)) r := by
    intro r hr
    obtain rfl : r = 2 ^ 32 := List.mem_singleton.mp hr
    exact ⟨lastRows, rfl, 65536, by decide, rfl⟩
  have hdelivered : Delivered (fun _ : Fin 1 => [[2 ^ 32]]) :=
    delivered_singleton (by decide) (by decide)
  refine ⟨hindex, hrows, hdelivered, fun h => ?_⟩
  obtain ⟨tr, n, heap, rowIds, hrun⟩ := exists_run_source h.terminates
  obtain ⟨-, hmem, hlength⟩ := h.rowIds hrun
  obtain ⟨hle, -⟩ := emitted_of_run hindex (fun _ => measured_f32 rfl) one_pos hdelivered hrows hrun
  obtain ⟨r, hr⟩ := List.exists_mem_of_length_pos (hlength ▸ by decide : 0 < rowIds.length)
  have hlow : r ∈ [0] := Multiset.mem_coe.mp (Multiset.mem_of_le hle hr)
  have hhigh : r ∈ [2 ^ 32] := hmem r hr
  simp only [List.mem_singleton] at hlow hhigh
  omega

/-- A scan of the small table with a limit that has more than 32 bits. -/
def wideLimit : FilteredScan Rat Rat (ExactFloat Rat) :=
  { scanOf quantizationF32 1 0 firstRows with limit := 2 ^ 32 + 1 }

/-- For the searches the limit is 1, and one of two rows is emitted. -/
theorem not_returnsMinKRows_wideLimit :
    ¬ wideLimit.ReturnsMinKRows StdSort.insertion (SortedQueue (KNNCandidate.distance (K := Rat)))
      (fun _ _ => .const (ofReal 0)) (fun _ : Fin 1 => [[0, 1]]) := by
  intro h
  have hindex : wideLimit.index.SetUpWith (.roundRobin Rat Rat) quantizationF32 _ :=
    scanOf_setUpWith quantizationF32 one_pos Function.injective_id
      (by decide : ∀ e < firstRows.count, getRowGroupId (firstRows.rowIds e) = 0)
  obtain ⟨tr, n, heap, rowIds, hrun⟩ := exists_run_source h.terminates
  obtain ⟨-, hone⟩ := emitted_of_run hindex (fun _ => measured_f32 rfl) (by decide)
    (delivered_singleton (by decide) (by decide)) firstRows_isRowOf hrun
  obtain ⟨-, -, htwo⟩ := h.rowIds hrun
  exact absurd (hone.symm.trans htwo) (by decide)

end FilteredScan

end PDXearch
