import PDXearch.Kernel.FilteredSearch
import PDXearch.Lib.HandOver

/-!
# What a global search finds

Whatever the pruner and the quantization, each cluster that a global search visits adds some of its
candidates to the heap until it is full, and a full heap stays full. So a global search returns
different candidates of the visited clusters, as many as it was asked for or as there are.
-/

namespace PDXearch

open Lib ExactFloat PriorityQueue

namespace Searcher

variable {K E D M : Type} [Zero E] [Field K] [LinearOrder K] [LinearOrder D] [AddCommMonoid M]
  {S : Searcher K E D} {μ : DistanceMeasure S M} {H : Type} [Heap H K] {k c : Nat}
  {filter : Option Selection}

/-- The number that goes with a selection vector is that of the slots it selects. -/
def FilterCounts (S : Searcher K E D) (c : Nat) (filter : Option Selection) : Prop :=
  ∀ selection ∈ filter, selection.passingTuples =
    (selectedBy selection (S.pdxData.cluster c).numEmbeddings).length

omit [Field K] in
/-- A cluster that is scanned in full. -/
theorem start_fills (μ : DistanceMeasure S M) (std : StdSort) (s : ProbeState D) {heap : H}
    (hroom : size heap < k) :
    Fills k (μ.candidates c none : Multiset (KNNCandidate K)) (elems heap)
      (elems (S.start S.preparedQuery (S.pdxData.cluster c).data std
        (S.pdxData.cluster c).numEmbeddings k (S.pdxData.cluster c).indices s heap).1) := by
  obtain ⟨inserted, hkeep, helems⟩ := start_inserts S.hasDims (μ.measures c) std k
    (S.pdxData.cluster c).indices s heap
  have hcandidates : (inserted.map fun i => (⟨(S.pdxData.cluster c).indices i,
      S.pdxData.quantization.floatOfDistance (μ.embed (fullSum (μ.term c)
        S.pdxData.numVerticalDimensions S.pdxData.numHorizontalDimensions i))⟩ :
          KNNCandidate K)) = inserted.map (μ.candidate c) := rfl
  rw [helems, hcandidates, add_comm]
  constructor
  · rw [DistanceMeasure.candidates_none, ← Multiset.map_coe, ← Multiset.map_coe]
    exact add_le_add_right (Multiset.map_le_map hkeep.le) _
  · have hcard := hkeep.card_eq
    rw [Multiset.coe_card, Multiset.coe_card, List.length_range] at hcard
    rw [Multiset.card_add, Multiset.coe_card, Multiset.coe_card, List.length_map, hcard,
      DistanceMeasure.candidates_none, List.length_map, List.length_range, ← size_eq]
    omega

/-- The selected slots of a cluster that are scanned in full. -/
theorem filteredStart_fills (hμ : IsMeasure S μ) (std : StdSort) {selection : Selection}
    (hcount : selection.passingTuples =
      (selectedBy selection (S.pdxData.cluster c).numEmbeddings).length)
    (s : ProbeState D) {heap : H} (hroom : size heap < k) :
    Fills k (μ.candidates c (some selection) : Multiset (KNNCandidate K)) (elems heap)
      (elems (S.filteredStart S.preparedQuery (S.pdxData.cluster c).data std
        (S.pdxData.cluster c).numEmbeddings k (S.pdxData.cluster c).indices selection s heap).1) := by
  obtain ⟨inserted, hle, hcard, helems⟩ := filteredStart_candidates (k := k) hμ std hcount s heap
  have hslots : DistanceMeasure.selectedSlots S c (some selection) =
      selectedBy selection (S.pdxData.cluster c).numEmbeddings := rfl
  rw [helems, add_comm, DistanceMeasure.candidates, hslots]
  constructor
  · rw [← Multiset.map_coe]
    exact add_le_add_right (Multiset.map_le_map hle) _
  · rw [Multiset.card_add, Multiset.card_map, hcard, Multiset.coe_card, List.length_map, ← hcount,
      ← size_eq]
    omega

/-- A cluster that is probed: the candidates that are not pruned are offered to a full heap. -/
theorem probe_fills (hμ : IsMeasure S μ) (hk : 0 < k) (filter : Option Selection) (s : ProbeState D)
    {heap : H} (hfull : (elems heap).card = k) :
    Fills k (μ.candidates c filter : Multiset (KNNCandidate K)) (elems heap)
      (elems (S.mergeIntoHeap (S.pdxData.cluster c).indices k
        ((S.probe S.preparedQuery (S.pdxData.cluster c).data (S.pdxData.cluster c).numEmbeddings
          filter s).eval fun idx => S.getPruningThreshold (topKey heap) idx) heap)) := by
  obtain ⟨tr, hrun, hall⟩ := Client.exists_runs_eval
    (S.probe S.preparedQuery (S.pdxData.cluster c).data (S.pdxData.cluster c).numEmbeddings filter s)
    fun idx => S.getPruningThreshold (topKey heap) idx
  obtain ⟨dropped, hsplit, -⟩ := hμ.sentinel.probe_split (t := topKey heap) hrun
    fun e he => ⟨topKey heap, le_rfl, fun _ => trivial, hall e he⟩
  have hmerge := offerAll_isKSmallest hk (IsKSmallest.self hfull.le)
    (S.mergeCandidates (S.pdxData.cluster c).indices ((S.probe S.preparedQuery
      (S.pdxData.cluster c).data (S.pdxData.cluster c).numEmbeddings filter s).eval
        fun idx => S.getPruningThreshold (topKey heap) idx))
  constructor
  · refine hmerge.le.trans ?_
    rw [hsplit, add_comm]
    exact add_le_add_right (Multiset.le_add_right _ _) _
  · rw [mergeIntoHeap, hmerge.card_eq, Multiset.card_add]
    omega

/-- One visit. -/
theorem visitCluster_fills (hμ : IsMeasure S μ) (std : StdSort) (hk : 0 < k)
    (hcount : S.FilterCounts c filter) (s : ProbeState D) {heap : H}
    (hheap : (elems heap).card ≤ k) :
    Fills k (μ.candidates c filter : Multiset (KNNCandidate K)) (elems heap)
      (elems (S.visitCluster std k S.preparedQuery c filter heap s).1) := by
  by_cases hroom : size heap < k
  · cases filter with
    | none =>
      simp only [visitCluster, if_pos hroom]
      exact start_fills μ std _ hroom
    | some selection =>
      simp only [visitCluster, if_pos hroom]
      exact filteredStart_fills hμ std (hcount selection rfl) _ hroom
  · have hfull : (elems heap).card = k := by
      rw [size_eq] at hroom
      omega
    have hprobe := probe_fills (c := c) hμ hk filter (S.startCluster s) hfull
    simp only [visitCluster, if_neg hroom]
    split
    · exact hprobe
    · rename_i hzero
      rw [ne_eq, not_not] at hzero
      rwa [mergeIntoHeap, mergeCandidates, ProbeState.notPruned, hzero] at hprobe

/-- Any number of visits; clusters that are skipped have no candidates. -/
theorem visitClusters_fills (hμ : IsMeasure S μ) (std : StdSort) (hk : 0 < k) {skip : Nat → Bool}
    {filters : Nat → Option Selection} {clusters : List Nat}
    (hskip : ∀ c ∈ clusters, skip c → μ.candidates c (filters c) = [])
    (hcounts : ∀ c ∈ clusters, S.FilterCounts c (filters c)) {heap : H}
    (hheap : (elems heap).card ≤ k) (s : ProbeState D) :
    Fills k (clusters.flatMap fun c => μ.candidates c (filters c) : List (KNNCandidate K))
      (elems heap) (elems (S.visitClusters std k S.preparedQuery skip filters clusters heap s)) := by
  induction clusters generalizing heap s with
  | nil => exact .zero hheap
  | cons c clusters ih =>
    have hskip' : ∀ c ∈ clusters, skip c → μ.candidates c (filters c) = [] := fun c hc =>
      hskip c (List.mem_cons_of_mem _ hc)
    have hcounts' : ∀ c ∈ clusters, S.FilterCounts c (filters c) := fun c hc =>
      hcounts c (List.mem_cons_of_mem _ hc)
    rw [visitClusters, List.flatMap_cons, ← Multiset.coe_add]
    split
    · rename_i hc
      rw [hskip c List.mem_cons_self hc, Multiset.coe_nil, zero_add]
      exact ih hskip' hcounts' hheap s
    · have hstep := visitCluster_fills hμ std hk (hcounts c List.mem_cons_self) s hheap
      exact hstep.trans (ih hskip' hcounts' hstep.card_le _)

/-- What is read off the heap in the end. -/
theorem buildResultSet_fills (hμ : IsMeasure S μ) (std : StdSort) (hk : 0 < k) {skip : Nat → Bool}
    {filters : Nat → Option Selection} {clusters : List Nat}
    (hskip : ∀ c ∈ clusters, skip c → μ.candidates c (filters c) = [])
    (hcounts : ∀ c ∈ clusters, S.FilterCounts c (filters c)) (s : ProbeState D) :
    Fills (C := KNNCandidate K) k (clusters.flatMap fun c => μ.candidates c (filters c)) 0
        (buildResultSetFromHeap k (S.visitClusters std k S.preparedQuery skip filters clusters
          (empty : H) s)) ∧
      (buildResultSetFromHeap k (S.visitClusters std k S.preparedQuery skip filters clusters
        (empty : H) s)).Pairwise fun a b => a.distance ≤ b.distance := by
  have hempty : (elems (empty : H)).card ≤ k := by simp
  have hfills := visitClusters_fills hμ std hk hskip hcounts hempty s
  have hlt : ∀ x ∈ elems (S.visitClusters std k S.preparedQuery skip filters clusters (empty : H) s),
      x.distance < ⊤ := by
    intro x hx
    have hmem := Multiset.mem_of_le hfills.le hx
    rw [elems_empty, zero_add, Multiset.mem_coe] at hmem
    obtain ⟨c, -, hx⟩ := List.mem_flatMap.mp hmem
    obtain ⟨i, -, -, rfl⟩ := μ.mem_candidates.mp hx
    exact hμ.finite c i
  obtain ⟨hresult, hsorted⟩ := buildResultSetFromHeap_of_lt_top hlt hfills.card_le
  rw [elems_empty, ← hresult] at hfills
  exact ⟨hfills, hsorted⟩

end Searcher

end PDXearch
