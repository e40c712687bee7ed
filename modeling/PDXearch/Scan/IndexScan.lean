import PDXearch.Kernel.ApproximateDistances
import PDXearch.Scan.LosslessFilteredScan
import PDXearch.Scan.ScanSourceRuns
import PDXearch.Create.Pipeline

/-!
# The scan of an index

An index can be scanned without a filter if every slot has been set up and every row group has a
slot. The vectors that the tasks of the scan probe are then those of the rows whose clusters are
probed, and the row ids that are read off the heap are those of the nearest of these rows.
-/

namespace PDXearch

open Lib ExactFloat

/-- The items of all groups. -/
theorem sum_filter_eq {A C : Type} {n : Nat} {key : A → Nat} (f : A → C) {items : List A}
    (h : ∀ a ∈ items, key a < n) :
    ∑ g : Fin n, (((items.filter fun a => key a = g).map f : List C) : Multiset C) =
      (items.map f : List C) := by
  induction items with
  | nil => exact Finset.sum_const_zero
  | cons a items ih =>
    have hsplit : ∀ g : Fin n, ((((a :: items).filter fun a => key a = g).map f : List C) :
        Multiset C) = (if key a = g then {f a} else 0) +
          (((items.filter fun a => key a = g).map f : List C) : Multiset C) := by
      intro g
      by_cases hg : key a = g
      · rw [List.filter_cons_of_pos (by simpa using hg), if_pos hg]
        rfl
      · rw [List.filter_cons_of_neg (by simpa using hg), if_neg hg, zero_add]
    have hone : ∑ g : Fin n, (if key a = g then ({f a} : Multiset C) else 0) = {f a} := by
      rw [Finset.sum_eq_single ⟨key a, h a List.mem_cons_self⟩]
      · exact if_pos rfl
      · exact fun g _ hne => if_neg fun heq => hne (Fin.ext heq.symm)
      · exact fun hnot => absurd (Finset.mem_univ _) hnot
    simp only [hsplit]
    rw [Finset.sum_add_distrib, hone, ih fun a ha => h a (List.mem_cons_of_mem _ ha)]
    rfl

section Candidates

variable {K : Type} [Field K] [LinearOrder K]

/-- The candidate for a row at the squared distance `key`. -/
def candidateFor (key : Nat → K) (rowId : Nat) : KNNCandidate K :=
  ⟨rowId % 2 ^ 32, ofReal (key rowId)⟩

/-- What is known of the candidates of some rows is known of these rows. -/
theorem isNearlyKSmallest_rows {R : List Nat} (hlt : ∀ r ∈ R, r < 2 ^ 32) {key slack : Nat → K}
    {ratio : K} {k : Nat} {found : List (KNNCandidate K)}
    (h : IsNearlyKSmallest (fun x y => NearTop ratio slack y (KNNCandidate.distance x)) k
      (R.map (candidateFor key)) found)
    (hsorted : found.Pairwise fun a b => a.distance ≤ b.distance) :
    IsNearlyKSmallest (fun r r' => key r * ratio ≤ key r' + slack r') k R
        (found.map KNNCandidate.index) ∧
      (found.map KNNCandidate.index).Pairwise fun r r' => key r ≤ key r' := by
  have hindex : ∀ r ∈ R, (candidateFor key r).index = r := fun r hr => Nat.mod_eq_of_lt (hlt r hr)
  have hkey : ∀ x ∈ (R.map (candidateFor key) : Multiset (KNNCandidate K)),
      x.distance = ofReal (key x.index) := by
    intro x hx
    obtain ⟨r, hr, rfl⟩ := List.mem_map.mp (Multiset.mem_coe.mp hx)
    rw [hindex r hr]
    rfl
  constructor
  · have hrows : IsNearlyKSmallest (fun x y => key (KNNCandidate.index x) * ratio ≤
        key (KNNCandidate.index y) + slack (KNNCandidate.index y)) k
          (R.map (candidateFor key) : List (KNNCandidate K)) (found : Multiset (KNNCandidate K)) := by
      refine h.mono fun x hx y hy hnear => ?_
      rwa [NearTop, hkey x hx, hkey y hy, scale_ofReal, ← ofReal_add, ofReal_le] at hnear
    have hmapped : IsNearlyKSmallest (fun r r' => key r * ratio ≤ key r' + slack r') k
        _ ((found : Multiset (KNNCandidate K)).map KNNCandidate.index) := hrows.map
    rw [Multiset.map_coe, Multiset.map_coe, List.map_map] at hmapped
    rwa [(List.map_congr_left fun r hr => hindex r hr : R.map (KNNCandidate.index ∘
      candidateFor key) = R.map id), List.map_id] at hmapped
  · rw [List.pairwise_map]
    refine hsorted.imp_of_mem fun {x y} hx hy hxy => ?_
    rwa [hkey x (Multiset.mem_of_le h.le (Multiset.mem_coe.mpr hx)),
      hkey y (Multiset.mem_of_le h.le (Multiset.mem_coe.mpr hy)), ofReal_le] at hxy

end Candidates

section Slots

variable {K E D : Type} [Field K] [Zero E]

/-- Every slot of an index holds one of the rows that it was set up with. -/
theorem PDXearchWrapperParallel.SetUpWith.exists_row_of_slot {w : PDXearchWrapperParallel K E D}
    {ctx : BuildContext K E} {Q : QuantizationOf K E D} {rows : Nat → Option (EmbeddingBuffer K)}
    (h : w.SetUpWith ctx Q rows) {g : Nat} {rowGroup : PDXRowGroup K E D}
    (hrowGroup : rowGroup ∈ w.rowGroups g) {c p : Nat} (hslot : IsSlot rowGroup.searcher.pdxData c p) :
    ∃ r, IsRowOf rows r ∧ getRowGroupId r = g ∧ rowGroup.slotOf r = ⟨c, p⟩ ∧
      (rowGroup.searcher.pdxData.cluster c).indices p = r % 2 ^ 32 := by
  obtain ⟨buffer, hbuffer, hsame⟩ := h.exists_buffer hrowGroup
  have hgroup := h.isRowGroup g buffer hbuffer
  have hrows := rowsInSlots_builtSearcher (Q := Q) w.toPDXearchWrapper (· % defaultRowGroupSize)
    hgroup.inRange (mod_inj_of_getRowGroupId hgroup.distinct hgroup.getRowGroupId_eq)
  rw [hsame.pdxData_eq] at hslot
  obtain ⟨e, he, hrow⟩ := hrows.indexed c p hslot
  have hid := hgroup.getRowGroupId_eq e he
  refine ⟨buffer.rowIds e, ⟨buffer, hid.symm ▸ hbuffer, e, he, rfl⟩, hid, ?_, ?_⟩
  · rw [PDXRowGroup.slotOf, hsame.rowIdMetadata_eq, hrow]
    exact hrows.slotOf_slotRow c p hslot
  · rw [hsame.pdxData_eq, hrow]
    exact hrows.indices c p hslot

end Slots

namespace PDXearchWrapperParallel

variable {K E D M : Type} [Field K] [LinearOrder K] [Zero E]

/-- The pruners of the row groups fit their indexes, and none has a ratio below `ratio`. -/
def PrunersKeep (w : PDXearchWrapperParallel K E D) (ratio : K) : Prop :=
  ∀ g, ∀ rowGroup ∈ w.rowGroups g,
    rowGroup.searcher.pruner.numDimensions = rowGroup.searcher.pdxData.numDimensions ∧
      rowGroup.searcher.pruner.KeepsRatio ratio

omit [Field K] [Zero E] in
theorem PrunersKeep.fit {w : PDXearchWrapperParallel K E D} {ratio : K} (h : w.PrunersKeep ratio)
    (g : Nat) (rowGroup : PDXRowGroup K E D) (hrowGroup : rowGroup ∈ w.rowGroups g) :
    rowGroup.searcher.pruner.numDimensions = rowGroup.searcher.pdxData.numDimensions :=
  (h g rowGroup hrowGroup).1

/-- What the unfiltered scan asks of an index of the rows `rowIds`: all slots are set up, every row
group has a slot, the row ids have 32 bits, and the pruners fit the row groups. -/
structure Scannable (w : PDXearchWrapperParallel K E D) (ctx : BuildContext K E)
    (Q : QuantizationOf K E D) (rowIds : List Nat) : Prop where
  setUpWith : ∃ rows, w.SetUpWith ctx Q rows ∧ ∀ r, IsRowOf rows r ↔ r ∈ rowIds
  filled : w.Filled
  hasSlot : ∀ r ∈ rowIds, getRowGroupId r < w.numRowGroups
  lt : ∀ r ∈ rowIds, r < 2 ^ 32
  pruner_numDimensions : ∀ g, ∀ rowGroup ∈ w.rowGroups g,
    rowGroup.searcher.pruner.numDimensions = rowGroup.searcher.pdxData.numDimensions

namespace Scannable

variable {w : PDXearchWrapperParallel K E D} {ctx : BuildContext K E} {Q : QuantizationOf K E D}
  {rowIds : List Nat}

/-- The row group in a slot. -/
def rowGroup (h : w.Scannable ctx Q rowIds) (g : Fin w.numRowGroups) : PDXRowGroup K E D :=
  (w.rowGroups g).get (h.filled g g.isLt)

omit [LinearOrder K] in
theorem rowGroup_mem (h : w.Scannable ctx Q rowIds) (g : Fin w.numRowGroups) :
    h.rowGroup g ∈ w.rowGroups g := Option.get_mem _

/-- The searchers that the tasks of the scan go to. -/
def rowGroups (h : w.Scannable ctx Q rowIds) : RowGroups K E D w.numRowGroups where
  searcher g := (h.rowGroup g).searcher
  pruner_numDimensions g := h.pruner_numDimensions g _ (h.rowGroup_mem g)
  length_clusters g := by
    obtain ⟨rows, hset, -⟩ := h.setUpWith
    obtain ⟨buffer, -, hsame⟩ := hset.exists_buffer (h.rowGroup_mem g)
    rw [hsame.pdxData_eq]
    exact (BuildInput.build_spec (b := w.buildInput ctx Q w.numClustersPerRowGroup
      (· % defaultRowGroupSize) buffer.rowIds buffer.embeddings buffer.count)).1

omit [LinearOrder K] in
/-- The row ids that the row groups were set up with. -/
theorem storesRowIds (h : w.Scannable ctx Q rowIds) : ∃ rowId : Fin w.numRowGroups → Nat → Nat → Nat,
    h.rowGroups.StoresRowIds rowId ∧
      ∀ g c i, IsSlot (h.rowGroups.searcher g).pdxData c i → rowId g c i ∈ rowIds := by
  obtain ⟨rows, hset, hrows⟩ := h.setUpWith
  have hslots : ∀ g c i, ∃ r, IsSlot (h.rowGroups.searcher g).pdxData c i →
      r ∈ rowIds ∧ getRowGroupId r = g ∧ (h.rowGroup g).slotOf r = ⟨c, i⟩ ∧
        ((h.rowGroups.searcher g).pdxData.cluster c).indices i = r % 2 ^ 32 := by
    intro g c i
    by_cases hslot : IsSlot (h.rowGroups.searcher g).pdxData c i
    · obtain ⟨r, hr, hrest⟩ := hset.exists_row_of_slot (h.rowGroup_mem g) hslot
      exact ⟨r, fun _ => ⟨(hrows r).mp hr, hrest⟩⟩
    · exact ⟨0, fun hslot' => absurd hslot' hslot⟩
  choose rowId hrowId using hslots
  refine ⟨rowId, ⟨fun g c i hslot => (hrowId g c i hslot).2.2.2,
    fun g c i hslot => (hrowId g c i hslot).2.1, fun g c i c' i' hslot hslot' heq => ?_⟩,
    fun g c i hslot => (hrowId g c i hslot).1⟩
  have hsame := (hrowId g c i hslot).2.2.1
  rw [heq, (hrowId g c' i' hslot').2.2.1] at hsame
  obtain ⟨hc, hi⟩ := RowIdClusterMapping.mk.inj hsame
  exact ⟨hc.symm, hi.symm⟩

/-- `PDXearchScanGlobalSourceState` of a scan of the index. -/
def scan (h : w.Scannable ctx Q rowIds) (limit : Nat) (preprocessedQueryEmbedding : Nat → K)
    (nProbe : Nat) : ParallelScan K E D w.numRowGroups where
  limit := limit
  preprocessedQueryEmbedding := preprocessedQueryEmbedding
  nProbe := nProbe
  numClustersPerRowGroup := w.numClustersPerRowGroup
  rowGroups := h.rowGroups

/-! ## The rows that are probed -/

variable {rows : Nat → Option (EmbeddingBuffer K)}

section Probed

variable {limit nProbe : Nat} {query : Nat → K} {std : StdSort}

theorem mem_probedSlots_iff {scan : ParallelScan K E D w.numRowGroups}
    {g : Fin w.numRowGroups} {c p : Nat} : (c, p) ∈ scan.probedSlots std g ↔
      c ∈ (scan.searcher std g).searchClusters scan.numClustersToProbePerRowGroup ∧
        p < ((scan.searcher std g).pdxData.cluster c).numEmbeddings := by
  rw [ParallelScan.probedSlots, List.mem_flatMap]
  constructor
  · rintro ⟨c', hc', hmem⟩
    obtain ⟨p', hp', heq⟩ := List.mem_map.mp hmem
    obtain ⟨rfl, rfl⟩ := Prod.mk.inj heq
    exact ⟨hc', List.mem_range.mp hp'⟩
  · rintro ⟨hc, hp⟩
    exact ⟨c, hc, List.mem_map_of_mem (List.mem_range.mpr hp)⟩

/-- A row is probed if the task of its row group probes its cluster. -/
theorem isProbed_iff (h : w.Scannable ctx Q rowIds) {g : Fin w.numRowGroups} {r : Nat}
    (hgroup : getRowGroupId r = g) :
    w.isProbed std query (h.scan limit query nProbe).numClustersToProbePerRowGroup r = true ↔
      ((h.rowGroup g).slotOf r).clusterId ∈ ((h.scan limit query nProbe).searcher std
        g).searchClusters (h.scan limit query nProbe).numClustersToProbePerRowGroup := by
  obtain ⟨rows, hset, -⟩ := h.setUpWith
  have hle : (h.scan limit query nProbe).numClustersToProbePerRowGroup ≤
      (h.rowGroup g).searcher.pdxData.numClusters := by
    rw [(hset.consistent _ _ (h.rowGroup_mem g)).numClusters_eq,
      ParallelScan.numClustersToProbePerRowGroup]
    change (if nProbe = 0 ∨ w.numClustersPerRowGroup < nProbe then w.numClustersPerRowGroup
      else nProbe) ≤ w.numClustersPerRowGroup
    split <;> omega
  have hclusters : ((h.scan limit query nProbe).searcher std g).searchClusters
      (h.scan limit query nProbe).numClustersToProbePerRowGroup =
        (Searcher.getClustersAccessOrderIVF std query (h.rowGroup g).searcher.pdxData
          (h.rowGroup g).searcher.pdxData.numClusters).take
            (h.scan limit query nProbe).numClustersToProbePerRowGroup :=
    congrArg (List.take · _) (min_eq_left hle)
  rw [PDXearchWrapperParallel.isProbed, hgroup, Option.mem_def.mp (h.rowGroup_mem g),
    Option.any_some, decide_eq_true_eq, hclusters]

/-- The slots that a task probes are those of the rows of its row group that are probed. -/
theorem probedSlots_perm (h : w.Scannable ctx Q rowIds) (hnodup : rowIds.Nodup)
    (hset : w.SetUpWith ctx Q rows) (hrows : ∀ r, IsRowOf rows r ↔ r ∈ rowIds)
    (g : Fin w.numRowGroups) :
    ((h.scan limit query nProbe).probedSlots std g).Perm
      (((rowIds.filter fun r => w.isProbed std query
          (h.scan limit query nProbe).numClustersToProbePerRowGroup r).filter fun r =>
          getRowGroupId r = g).map fun r =>
        (((h.rowGroup g).slotOf r).clusterId, ((h.rowGroup g).slotOf r).indexInCluster)) := by
  have hheld : ∀ r ∈ rowIds, getRowGroupId r = g → (h.rowGroup g).Holds r := by
    intro r hr hgroup
    obtain ⟨rowGroup, hrowGroup, hholds⟩ := hset.isIndexed ((hrows r).mpr hr)
    rw [hgroup] at hrowGroup
    rwa [Option.some.inj ((h.rowGroup_mem g).symm.trans hrowGroup)]
  refine (List.perm_ext_iff_of_nodup (ParallelScan.nodup_probedSlots g) ?_).mpr fun slot => ?_
  · refine (List.nodup_map_iff_inj_on ((hnodup.filter _).filter _)).mpr fun r hr r' hr' heq => ?_
    obtain ⟨hmem, hgroup⟩ := List.mem_filter.mp hr
    obtain ⟨hmem', hgroup'⟩ := List.mem_filter.mp hr'
    have hgroup := of_decide_eq_true hgroup
    have hgroup' := of_decide_eq_true hgroup'
    have hmod := (hheld r (List.mem_of_mem_filter hmem) hgroup).2
    obtain ⟨hc, hp⟩ := Prod.mk.inj heq
    rw [hc, hp, (hheld r' (List.mem_of_mem_filter hmem') hgroup').2] at hmod
    exact PDXRowGroup.eq_of_mod_eq (hgroup.trans hgroup'.symm) hmod.symm
  · obtain ⟨c, p⟩ := slot
    rw [List.mem_map]
    constructor
    · intro hslot
      obtain ⟨r, hr, hgroup, hslotOf, -⟩ := hset.exists_row_of_slot (h.rowGroup_mem g)
        (ParallelScan.mem_probedSlots hslot)
      have hprobed : w.isProbed std query
          (h.scan limit query nProbe).numClustersToProbePerRowGroup r = true := by
        rw [h.isProbed_iff hgroup, hslotOf]
        exact (mem_probedSlots_iff.mp hslot).1
      refine ⟨r, List.mem_filter.mpr ⟨?_, decide_eq_true hgroup⟩, by rw [hslotOf]⟩
      exact List.mem_filter.mpr ⟨(hrows r).mp hr, hprobed⟩
    · rintro ⟨r, hr, heq⟩
      obtain ⟨hmem, hgroup⟩ := List.mem_filter.mp hr
      obtain ⟨hmem, hprobed⟩ := List.mem_filter.mp hmem
      have hgroup := of_decide_eq_true hgroup
      obtain ⟨rfl, rfl⟩ := Prod.mk.inj heq
      exact mem_probedSlots_iff.mpr ⟨(h.isProbed_iff hgroup).mp hprobed, (hheld r hmem hgroup).1.2⟩

/-- The measures of the scan's searchers give the row `r` the squared distance `key r`. -/
structure MeasuresRows [LinearOrder D] [AddCommMonoid M] (h : w.Scannable ctx Q rowIds)
    {limit nProbe : Nat} {query : Nat → K} {std : StdSort}
    (μ : ∀ g, DistanceMeasure ((h.scan limit query nProbe).searcher std g) M) (key : Nat → K) :
    Prop where
  isMeasure : ∀ g, IsMeasure _ (μ g)
  candidate_eq : ∀ g : Fin w.numRowGroups, ∀ r ∈ rowIds, getRowGroupId r = g →
    (μ g).candidate ((h.rowGroup g).slotOf r).clusterId ((h.rowGroup g).slotOf r).indexInCluster =
      candidateFor key r

/-- The candidates that the tasks answer for are those of the probed rows. -/
theorem sum_pending_eq [LinearOrder D] [AddCommMonoid M] (h : w.Scannable ctx Q rowIds)
    (hnodup : rowIds.Nodup) (hset : w.SetUpWith ctx Q rows)
    (hrows : ∀ r, IsRowOf rows r ↔ r ∈ rowIds)
    {μ : ∀ g, DistanceMeasure ((h.scan limit query nProbe).searcher std g) M} {key : Nat → K}
    (hμ : h.MeasuresRows μ key) :
    ∑ g, (h.scan limit query nProbe).pending std μ g =
      ((rowIds.filter fun r => w.isProbed std query
        (h.scan limit query nProbe).numClustersToProbePerRowGroup r).map
          (candidateFor key) : List (KNNCandidate K)) := by
  rw [← sum_filter_eq _ fun r hr => h.hasSlot r (List.mem_of_mem_filter hr)]
  refine Finset.sum_congr rfl fun g _ => ?_
  have hslots : (((h.scan limit query nProbe).probedSlots std g).map fun slot =>
      (μ g).candidate slot.1 slot.2).Perm _ := (h.probedSlots_perm hnodup hset hrows g).map _
  refine (Multiset.coe_eq_coe.mpr hslots).trans ?_
  rw [List.map_map]
  refine congrArg _ (List.map_congr_left fun r hr => ?_)
  obtain ⟨hmem, hgroup⟩ := List.mem_filter.mp hr
  exact hμ.candidate_eq g r (List.mem_of_mem_filter hmem) (of_decide_eq_true hgroup)

end Probed

variable {limit nProbe : Nat} {query : Nat → K} {std : StdSort}

/-- Every row is probed where all clusters are. -/
theorem isProbed_of_nProbe (h : w.Scannable ctx Q rowIds)
    (hprobe : nProbe = 0 ∨ w.numClustersPerRowGroup ≤ nProbe) {r : Nat} (hr : r ∈ rowIds) :
    w.isProbed std query (h.scan limit query nProbe).numClustersToProbePerRowGroup r = true := by
  have hall : (h.scan limit query nProbe).numClustersToProbePerRowGroup =
      w.numClustersPerRowGroup := by
    change (if nProbe = 0 ∨ w.numClustersPerRowGroup < nProbe then w.numClustersPerRowGroup
      else nProbe) = w.numClustersPerRowGroup
    split <;> omega
  obtain ⟨rows, hset, hrows⟩ := h.setUpWith
  rw [hall]
  exact hset.isProbed_of_le ((hrows r).mpr hr) le_rfl

/-- The row ids that any complete search ends with: as many of the probed rows as there are to find,
in the order of their measured distances, none of which is much farther away than a row that was not
found. -/
theorem nearly_of_isSearchResult [IsStrictOrderedRing K] [LinearOrder D] [AddCommMonoid M]
    (h : w.Scannable ctx Q rowIds) (hk : 0 < limit) (hbits : limit < 2 ^ 32)
    (hnodup : rowIds.Nodup) {rows : Nat → Option (EmbeddingBuffer K)} (hset : w.SetUpWith ctx Q rows)
    (hrows : ∀ r, IsRowOf rows r ↔ r ∈ rowIds)
    {μ : ∀ g, DistanceMeasure ((h.scan limit query nProbe).searcher std g) M} {key : Nat → K}
    (hμ : h.MeasuresRows μ key) (hkey : ∀ r ∈ rowIds, 0 ≤ key r) {ratio : K} (hratio : 0 ≤ ratio)
    (hone : ratio ≤ 1) {slack : Nat → K} (hslack : ∀ r, 0 ≤ slack r)
    (hrule : ∀ g, DropRule (μ g) AnyAnswer (NearTop ratio slack)) {H : Type} [Heap H K]
    {arrays : Fin w.numRowGroups → ProbeState D} {result : List Nat}
    (hresult : (h.scan limit query nProbe).IsSearchResult std H arrays result) :
    IsNearlyKSmallest (fun r r' => key r * ratio ≤ key r' + slack r') limit
        (rowIds.filter fun r => w.isProbed std query
          (h.scan limit query nProbe).numClustersToProbePerRowGroup r) result ∧
      result.Pairwise fun r r' => key r ≤ key r' := by
  obtain ⟨tr, p, hrun, hfin, rfl⟩ := hresult
  have hlimit : (h.scan limit query nProbe).k = limit := ParallelScan.k_eq hbits
  have hstart := ParallelScan.schedule_accounted (H := H) μ hrule (hlimit.symm ▸ hk)
    (fun g c i => (hμ.isMeasure g).finite c i) arrays
  obtain ⟨-, pend, hacc, hsum⟩ := Pool.run_accounted (fun g => (hrule g).stable 0) hstart hrun
    fun _ _ _ _ => trivial
  rw [h.sum_pending_eq hnodup hset hrows hμ] at hsum
  have hdropped : ∀ x ∈ ∑ g, pend g, NearTop ratio slack x (PriorityQueue.topKey p.shared) := by
    intro x hx
    obtain ⟨g, -, hx⟩ := Multiset.mem_sum.mp hx
    obtain ⟨_, dropped, hpend, hall⟩ := hacc.post_of_finished hfin g
    rw [hpend, add_zero] at hx
    exact hall x hx
  have hmade : ∀ x ∈ (offered tr : Multiset (KNNCandidate K)) + ∑ g, pend g,
      ∃ r ∈ rowIds, candidateFor key r = x := by
    intro x hx
    obtain ⟨r, hr, rfl⟩ := List.mem_map.mp (Multiset.mem_coe.mp (hsum ▸ hx))
    exact ⟨r, List.mem_of_mem_filter hr, rfl⟩
  have hprimed := hacc.primed
  rw [add_zero] at hprimed
  have hnearly : IsNearlyKSmallest (fun x y => NearTop ratio slack y (KNNCandidate.distance x)) _ _
      _ := hprimed.popSentinel_isNearlyKSmallest (B := ∑ g, pend g) ?_ ?_
  · rw [← hsum, ← buildResultSetFromHeap_eq_elems hprimed] at hnearly
    obtain ⟨hfound, hsorted⟩ := isNearlyKSmallest_rows
      (fun r hr => h.lt r (List.mem_of_mem_filter hr)) hnearly (buildResultSetFromHeap_spec hprimed).2
    refine ⟨?_, hsorted⟩
    obtain ⟨R, hR, hcard, hnear⟩ := hfound
    exact ⟨R, hR, hcard.trans (by rw [hlimit]), hnear⟩
  · -- two candidates that were offered
    intro x hx y hy hxy
    obtain ⟨r, hr, rfl⟩ := hmade x (Multiset.mem_add.mpr (Or.inl hx))
    obtain ⟨r', hr', rfl⟩ := hmade y (Multiset.mem_add.mpr (Or.inl hy))
    rw [candidateFor, candidateFor, ofReal_le] at hxy
    rw [NearTop, candidateFor, candidateFor, scale_ofReal, ← ofReal_add, ofReal_le]
    calc key r * ratio ≤ key r := mul_le_of_le_one_right (hkey r hr) hone
      _ ≤ key r' := hxy
      _ ≤ key r' + slack _ := le_add_of_nonneg_right (hslack _)
  · -- a candidate that was dropped
    intro y hy
    have hnear := hdropped y hy
    constructor
    · obtain ⟨r, hr, rfl⟩ := hmade y (Multiset.mem_add.mpr (Or.inr hy))
      rw [NearTop, candidateFor, ← ofReal_add] at hnear
      exact ne_top_of_scale_le hnear
    · exact fun x _ hx => hnear.anti hratio hx

end Scannable

end PDXearchWrapperParallel

end PDXearch
