import PDXearch.Kernel.DropRules
import PDXearch.Kernel.StartRuns

/-!
# What a filtered search merges

The vectors that `FilteredSearch` and `FilteredSearchGlobal` may merge into the heap are those that
the selection vectors of the evaluator select. That every one of them may be merged needs that
nothing is dropped as long as the heap has room, in whichever way distances are measured.
-/

namespace PDXearch

open Lib ExactFloat PriorityQueue Client

section Measured

variable {K E D : Type} [Zero E] [Field K] [LinearOrder K] [LinearOrder D]

/-- The distances in an index are measured in `M`: they are finite and below the mark of the vectors
that are not selected, and nothing is dropped while the sentinel is on top. -/
structure IsMeasure (S : Searcher K E D) {M : Type} [AddCommMonoid M] (μ : DistanceMeasure S M) :
    Prop where
  sentinel : DropRule μ AnyAnswer (fun _ t => t ≠ ⊤)
  finite : ∀ c i, (μ.candidate c i).distance < ⊤
  mark : ∀ c i, μ.embed (μ.slotDistance c i) < S.pdxData.quantization.halfMax

/-- Every searcher of the index has a measure, whatever its query. -/
def Measured (index : IndexPDXIVF K E D) (M : Type) [AddCommMonoid M] : Prop :=
  ∀ S : Searcher K E D, S.pdxData = index → ∃ μ : DistanceMeasure S M, IsMeasure S μ

theorem isMeasure_f32 {S : Searcher K K (ExactFloat K)}
    (h : S.pdxData.quantization = Quantization.f32) : IsMeasure S (DistanceMeasure.f32 S h) where
  sentinel := sentinel_f32 h
  finite c i := by
    rw [candidate_f32]
    exact ofReal_lt_top _
  mark c i := by
    rw [h]
    exact ofReal_lt_halfMax _

theorem isMeasure_u8 [FloorRing K] {S : Searcher K UInt8 Nat} {maxValue : UInt8}
    {params : ScalarQuantizationParams K}
    (h : S.pdxData.quantization = Quantization.u8 maxValue params)
    (hdims : S.pdxData.numDimensions ≤ pdxMaxDims) :
    IsMeasure S (DistanceMeasure.u8 S maxValue params h hdims) where
  sentinel := sentinel_u8 h hdims
  finite c i := by
    rw [candidate_u8_distance]
    exact ofReal_lt_top _
  mark c i := by
    rw [h]
    exact Quantization.partialSum_termU8_lt S.preparedQuery _ _ i
      (S.pdxData.vertical_add_horizontal.symm ▸ hdims) le_rfl le_rfl

theorem measured_f32 {index : IndexPDXIVF K K (ExactFloat K)}
    (h : index.quantization = Quantization.f32) : Measured index K := by
  rintro S rfl
  exact ⟨DistanceMeasure.f32 S h, isMeasure_f32 h⟩

theorem measured_u8 [FloorRing K] {index : IndexPDXIVF K UInt8 Nat} {maxValue : UInt8}
    {params : ScalarQuantizationParams K} (h : index.quantization = Quantization.u8 maxValue params)
    (hdims : index.numDimensions ≤ pdxMaxDims) : Measured index Nat := by
  rintro S rfl
  exact ⟨DistanceMeasure.u8 S maxValue params h hdims, isMeasure_u8 h hdims⟩

end Measured

/-! ## A search that is taken up again -/

/-- The searcher with its cursor at the given place. -/
def Searcher.atCursor {K E D : Type} (S : Searcher K E D) (cursor : Nat) : Searcher K E D :=
  { S with clusterIndicesInAccessOrderOffset := cursor }

/-- The measure does not depend on the cursor. -/
def DistanceMeasure.atCursor {K E D M : Type} [Zero E] [AddCommMonoid M] {S : Searcher K E D}
    (μ : DistanceMeasure S M) (cursor : Nat) : DistanceMeasure (S.atCursor cursor) M where
  term := μ.term
  embed := μ.embed
  measures := μ.measures

section TakenUp

variable {K E D M : Type} [Zero E] [Field K] [LinearOrder K] [LinearOrder D] [AddCommMonoid M]
  {S : Searcher K E D} {μ : DistanceMeasure S M}

omit [Field K] [LinearOrder K] [LinearOrder D] [Zero E] in
theorem Searcher.advance_atCursor (S : Searcher K E D) (cursor n : Nat) :
    (S.atCursor cursor).advance n =
      S.atCursor (max cursor (min (cursor + n) S.pdxData.numClusters)) := rfl

omit [Field K] [LinearOrder K] [LinearOrder D] [Zero E] in
theorem Searcher.filteredSearchClusters_atCursor (S : Searcher K E D) (cursor n : Nat) :
    (S.atCursor cursor).filteredSearchClusters n =
      (S.clusterIndicesInAccessOrder.take (min (cursor + n) S.pdxData.numClusters)).drop cursor :=
  rfl

/-- From any cursor on: what is dropped is dropped from below a real candidate. -/
theorem IsMeasure.filteredSearch_accounts (hμ : IsMeasure S μ) {evaluator : PredicateEvaluator}
    (hevaluator : S.predicateEvaluator = some evaluator)
    (hcounts : ∀ c ∈ S.clusterIndicesInAccessOrder, (S.selection evaluator c).passingTuples = 0 →
      μ.candidates c (some (S.selection evaluator c)) = [])
    (cursor n : Nat) (arrays : ProbeState D) (t : ExactFloat K) :
    Accounts AnyAnswer
      (fun S' pend t => S' = (S.atCursor cursor).advance n ∧ Settled (fun _ t => t ≠ ⊤) 0 pend t)
      (((S.atCursor cursor).filteredSearchClusters n).flatMap fun c =>
        μ.candidates c (some (S.selection evaluator c))) t
      ((S.atCursor cursor).filteredSearch n arrays) := by
  have hrule : DropRule (μ.atCursor cursor) AnyAnswer (fun _ t => t ≠ ⊤) :=
    ⟨fun ht h => ne_top_of_le_ne_top h ht, hμ.sentinel.drop⟩
  exact hrule.filteredSearch_accounts hevaluator hcounts n arrays t

end TakenUp

namespace Searcher

variable {K E D M : Type} [Zero E] [Field K] [LinearOrder K] [LinearOrder D] [AddCommMonoid M]
  {S : Searcher K E D} {evaluator : PredicateEvaluator}

/-- The number of passing tuples of every cluster is that of the slots its selection vector
selects. -/
def Counts (S : Searcher K E D) (evaluator : PredicateEvaluator) : Prop :=
  ∀ c < S.pdxData.numClusters, (S.selection evaluator c).passingTuples =
    (selectedBy (S.selection evaluator c) (S.pdxData.cluster c).numEmbeddings).length

/-- Some call of `FilteredSearch` after `InitializeSearch` with the evaluator merges `x` into the
heap, in some run, wherever the cursor was. -/
def FilteredSearchMerges (S : Searcher K E D) (evaluator : PredicateEvaluator)
    (x : KNNCandidate K) : Prop :=
  ∃ (std : StdSort) (query : Nat → K) (k cursor numClustersToTryToProbe : Nat)
    (arrays : ProbeState D)
    (tr : List (Event (QueueOp ThresholdRead (KNNCandidate K) Nat) (QueueOp.Res (ExactFloat K))))
    (S' : Searcher K E D), 0 < k ∧
    ({ S.initializeSearch std query k (some evaluator) with
      clusterIndicesInAccessOrderOffset := cursor }.filteredSearch numClustersToTryToProbe
        arrays).Runs tr S' ∧ x ∈ offers tr

/-- Some `FilteredSearchGlobal` with the evaluator has `x` in its heap after some of its clusters. -/
def FilteredSearchGlobalMerges (H : Type) [Heap H K] (S : Searcher K E D)
    (evaluator : PredicateEvaluator) (x : KNNCandidate K) : Prop :=
  ∃ (std : StdSort) (query : Nat → E) (k : Nat) (clusters : List Nat) (arrays : ProbeState D),
    0 < k ∧ (∀ c ∈ clusters, c < S.pdxData.numClusters) ∧
    x ∈ elems (S.visitClusters std k query
      (fun c => (S.selection evaluator c).passingTuples = 0 ∨
        (S.pdxData.cluster c).numEmbeddings = 0)
      (fun c => some (S.selection evaluator c)) clusters (empty : H) arrays)

/-- A selected slot that holds the row id `y`. -/
def SelectsIndex (S : Searcher K E D) (evaluator : PredicateEvaluator) (y : Nat) : Prop :=
  ∃ c i, IsSlot S.pdxData c i ∧ (S.selection evaluator c).selectionVector i = true ∧
    (S.pdxData.cluster c).indices i = y

omit [Field K] [LinearOrder K] [LinearOrder D] in
theorem Counts.candidates_eq_nil (hcounts : S.Counts evaluator) (μ : DistanceMeasure S M) {c : Nat}
    (hc : c < S.pdxData.numClusters) (hzero : (S.selection evaluator c).passingTuples = 0) :
    μ.candidates c (some (S.selection evaluator c)) = [] := by
  have hnone := hcounts c hc
  rw [hzero] at hnone
  exact List.map_eq_nil_iff.mpr (List.length_eq_zero_iff.mp hnone.symm)

omit [Field K] [LinearOrder K] [LinearOrder D] in
theorem selectsIndex_of_candidate {μ : DistanceMeasure S M} {c : Nat}
    (hc : c < S.pdxData.numClusters) {x : KNNCandidate K}
    (hx : x ∈ μ.candidates c (some (S.selection evaluator c))) :
    S.SelectsIndex evaluator x.index := by
  obtain ⟨i, hi, hsel, rfl⟩ := μ.mem_candidates.mp hx
  exact ⟨c, i, ⟨hc, hi⟩, hsel, rfl⟩

/-- The row ids of the vectors that `FilteredSearch` may merge. -/
theorem filteredSearchMerges_iff (hM : Measured S.pdxData M) (hcounts : S.Counts evaluator)
    (y : Nat) :
    (∃ x, S.FilteredSearchMerges evaluator x ∧ x.index = y) ↔ S.SelectsIndex evaluator y := by
  constructor
  · rintro ⟨x, ⟨std, query, k, cursor, n, arrays, tr, S', -, hrun, hx⟩, rfl⟩
    obtain ⟨μ, -⟩ := hM ({ S.initializeSearch std query k (some evaluator) with
      clusterIndicesInAccessOrderOffset := cursor }) rfl
    obtain ⟨s, tr₁, tr₂, rfl, hclusters, hdone⟩ := runs_bind_iff.mp hrun
    obtain ⟨rfl, -⟩ := runs_done_iff.mp hdone
    rw [List.append_nil] at hx
    obtain ⟨c, hc, hmem⟩ := probeClusters_offers μ hclusters x hx
    have hperm := getClustersAccessOrderIVF_perm std query S.pdxData S.pdxData.numClusters
    have hlt : c < S.pdxData.numClusters := List.mem_range.mp (hperm.mem_iff.mp
      (List.mem_of_mem_take (List.mem_of_mem_drop hc)))
    exact selectsIndex_of_candidate (μ := μ) hlt hmem
  · rintro ⟨c, i, hslot, hsel, rfl⟩
    -- all clusters in one call, with a heap that never fills
    set S₁ := S.initializeSearch StdSort.insertion (fun _ => 0) 1 (some evaluator)
    obtain ⟨μ, hμ⟩ := hM S₁ rfl
    have hperm : S₁.clusterIndicesInAccessOrder.Perm (List.range S.pdxData.numClusters) :=
      getClustersAccessOrderIVF_perm StdSort.insertion (fun _ => 0) S.pdxData S.pdxData.numClusters
    have hclusters : S₁.filteredSearchClusters S.pdxData.numClusters =
        S₁.clusterIndicesInAccessOrder := by
      refine List.take_of_length_le ?_
      rw [hperm.length_eq, List.length_range]
      exact le_min (Nat.le_add_left _ _) le_rfl
    have haccounts := hμ.sentinel.filteredSearch_accounts rfl
      (fun c hc => Counts.candidates_eq_nil (S := S₁) hcounts μ
        (List.mem_range.mp (hperm.mem_iff.mp hc)))
      S.pdxData.numClusters ⟨fun _ => 0, fun _ => S.pdxData.quantization.zero,
        S.pdxData.quantization.zero, 0, 0⟩ ⊤
    obtain ⟨tr, S', rest, hrun, hpend, -, dropped, rfl, hdropped⟩ :=
      haccounts.exists_run fun _ => trivial
    have hnone : dropped = 0 :=
      Multiset.eq_zero_of_forall_notMem fun x hx => hdropped x hx rfl
    rw [hnone, add_zero, add_zero, hclusters] at hpend
    refine ⟨μ.candidate c i, ⟨_, _, _, _, _, _, tr, S', one_pos, hrun, ?_⟩, rfl⟩
    refine Multiset.mem_coe.mp (hpend ▸ Multiset.mem_coe.mpr (List.mem_flatMap.mpr ⟨c, ?_, ?_⟩))
    · exact hperm.mem_iff.mpr (List.mem_range.mpr hslot.1)
    · exact μ.mem_candidates.mpr ⟨i, hslot.2, hsel, rfl⟩

section Global

variable {μ : DistanceMeasure S M} {H : Type} [Heap H K] {selection : Selection} {k c : Nat}

/-- The vectors that `FilteredStart` inserts. -/
theorem filteredStart_candidates (hμ : IsMeasure S μ) (std : StdSort)
    (hcount : selection.passingTuples =
      (selectedBy selection (S.pdxData.cluster c).numEmbeddings).length)
    (s : ProbeState D) (heap : H) :
    ∃ inserted : Multiset Nat,
      inserted ≤ (selectedBy selection (S.pdxData.cluster c).numEmbeddings : Multiset Nat) ∧
      inserted.card = min (k - size heap) selection.passingTuples ∧
      elems (S.filteredStart S.preparedQuery (S.pdxData.cluster c).data std
        (S.pdxData.cluster c).numEmbeddings k (S.pdxData.cluster c).indices selection s heap).1 =
        inserted.map (μ.candidate c) + elems heap := by
  obtain ⟨inserted, -, -, helems, hselected⟩ := filteredStart_inserts S.hasDims (μ.measures c)
    (fun i _ => hμ.mark c i) std k (S.pdxData.cluster c).indices selection s heap
  obtain ⟨hall, hkeep⟩ := hselected hcount.le
  refine ⟨inserted, hkeep.le, ?_, helems.trans ?_⟩
  · rw [hkeep.card_eq, Multiset.coe_card, ← hcount, min_assoc, min_self]
  · rw [Multiset.map_coe]
    congr 2
    exact List.map_congr_left fun i hi => by rw [if_pos (hall i hi)]; rfl

/-- One visit: the heap stays bounded and gains selected vectors of the cluster only. -/
theorem visitCluster_candidates (hμ : IsMeasure S μ) (std : StdSort) (hk : 0 < k)
    (hcount : selection.passingTuples =
      (selectedBy selection (S.pdxData.cluster c).numEmbeddings).length)
    (s : ProbeState D) {heap : H} (hheap : (elems heap).card ≤ k) :
    (elems (S.visitCluster std k S.preparedQuery c (some selection) heap s).1).card ≤ k ∧
      ∀ x ∈ elems (S.visitCluster std k S.preparedQuery c (some selection) heap s).1,
        x ∈ elems heap ∨ x ∈ μ.candidates c (some selection) := by
  by_cases hroom : size heap < k
  · simp only [visitCluster, if_pos hroom]
    obtain ⟨inserted, hle, hcard, helems⟩ :=
      filteredStart_candidates (k := k) hμ std hcount (S.startCluster s) heap
    rw [helems]
    constructor
    · rw [Multiset.card_add, Multiset.card_map, hcard, ← size_eq]
      omega
    · intro x hx
      rcases Multiset.mem_add.mp hx with hx | hx
      · obtain ⟨i, hi, rfl⟩ := Multiset.mem_map.mp hx
        have hsel := Multiset.mem_coe.mp (Multiset.mem_of_le hle hi)
        exact Or.inr (List.mem_map.mpr ⟨i, hsel, rfl⟩)
      · exact Or.inl hx
  · simp only [visitCluster, if_neg hroom]
    obtain ⟨tr, hrun, hall⟩ := Client.exists_runs_eval
      (S.probe S.preparedQuery (S.pdxData.cluster c).data (S.pdxData.cluster c).numEmbeddings
        (some selection) (S.startCluster s))
      fun idx => S.getPruningThreshold (topKey heap) idx
    obtain ⟨dropped, hsplit, -⟩ := hμ.sentinel.probe_split (t := topKey heap) hrun
      fun e he => ⟨topKey heap, le_rfl, fun _ => trivial, hall e he⟩
    split
    · have hmerge := offerAll_isKSmallest hk (IsKSmallest.self hheap)
        (S.mergeCandidates (S.pdxData.cluster c).indices ((S.probe S.preparedQuery
          (S.pdxData.cluster c).data (S.pdxData.cluster c).numEmbeddings (some selection)
          (S.startCluster s)).eval fun idx => S.getPruningThreshold (topKey heap) idx))
      refine ⟨hmerge.card_eq.le.trans (min_le_left _ _), fun x hx => ?_⟩
      rcases Multiset.mem_add.mp (Multiset.mem_of_le hmerge.le hx) with hx | hx
      · exact Or.inr (Multiset.mem_coe.mp (hsplit ▸ Multiset.mem_add.mpr (Or.inl hx)))
      · exact Or.inl hx
    · exact ⟨hheap, fun x hx => Or.inl hx⟩

/-- Any number of visits. -/
theorem visitClusters_candidates (hμ : IsMeasure S μ) (std : StdSort) (hk : 0 < k)
    (hcounts : S.Counts evaluator) (skip : Nat → Bool) {clusters : List Nat}
    (hclusters : ∀ c ∈ clusters, c < S.pdxData.numClusters) {heap : H}
    (hheap : (elems heap).card ≤ k) (s : ProbeState D) :
    ∀ x ∈ elems (S.visitClusters std k S.preparedQuery skip
        (fun c => some (S.selection evaluator c)) clusters heap s),
      x ∈ elems heap ∨ ∃ c ∈ clusters, x ∈ μ.candidates c (some (S.selection evaluator c)) := by
  induction clusters generalizing heap s with
  | nil => exact fun x hx => Or.inl hx
  | cons c clusters ih =>
    have hrest : ∀ c ∈ clusters, c < S.pdxData.numClusters := fun c hc =>
      hclusters c (List.mem_cons_of_mem _ hc)
    intro x hx
    rw [visitClusters] at hx
    split at hx
    · rcases ih hrest hheap s x hx with hx | ⟨c', hc', hmem⟩
      · exact Or.inl hx
      · exact Or.inr ⟨c', List.mem_cons_of_mem _ hc', hmem⟩
    · obtain ⟨hcard, hgain⟩ := visitCluster_candidates hμ std hk
        (hcounts c (hclusters c List.mem_cons_self)) s hheap
      rcases ih hrest hcard _ x hx with hx | ⟨c', hc', hmem⟩
      · rcases hgain x hx with hx | hmem
        · exact Or.inl hx
        · exact Or.inr ⟨c, List.mem_cons_self, hmem⟩
      · exact Or.inr ⟨c', List.mem_cons_of_mem _ hc', hmem⟩

end Global

/-- The row ids of the vectors that `FilteredSearchGlobal` may merge. -/
theorem filteredSearchGlobalMerges_iff (hM : Measured S.pdxData M) (hcounts : S.Counts evaluator)
    (H : Type) [Heap H K] (y : Nat) :
    (∃ x, S.FilteredSearchGlobalMerges H evaluator x ∧ x.index = y) ↔
      S.SelectsIndex evaluator y := by
  constructor
  · rintro ⟨x, ⟨std, query, k, clusters, arrays, hk, hclusters, hx⟩, rfl⟩
    obtain ⟨μ, hμ⟩ := hM (S.withQuery query) rfl
    rw [← visitClusters_withQuery S std k query] at hx
    have hempty : (elems (empty : H)).card ≤ k := by simp
    obtain ⟨c, hc, hmem⟩ := (visitClusters_candidates (S := S.withQuery query) hμ std hk hcounts _
      hclusters hempty arrays x hx).resolve_left (by simp)
    exact selectsIndex_of_candidate (S := S.withQuery query) (μ := μ) (hclusters c hc) hmem
  · rintro ⟨c, i, hslot, hsel, rfl⟩
    -- the one cluster, with room for all of it
    obtain ⟨μ, hμ⟩ := hM S rfl
    have hcount := hcounts c hslot.1
    have hmem : i ∈ selectedBy (S.selection evaluator c) (S.pdxData.cluster c).numEmbeddings :=
      List.mem_filter.mpr ⟨List.mem_range.mpr hslot.2, hsel⟩
    have hpositive : 0 < (S.selection evaluator c).passingTuples := by
      rw [hcount]
      exact List.length_pos_of_mem hmem
    set arrays : ProbeState D := ⟨fun _ => 0, fun _ => S.pdxData.quantization.zero,
      S.pdxData.quantization.zero, 0, 0⟩
    obtain ⟨inserted, hle, hcard, helems⟩ := filteredStart_candidates
      (k := (S.selection evaluator c).passingTuples) hμ StdSort.insertion hcount
      (S.startCluster arrays) (empty : H)
    have hsize : size (empty : H) = 0 := by rw [size_eq, elems_empty, Multiset.card_zero]
    rw [hsize, Nat.sub_zero, min_self, hcount, ← Multiset.coe_card] at hcard
    have hall := Multiset.eq_of_le_of_card_le hle hcard.ge
    refine ⟨μ.candidate c i, ⟨StdSort.insertion, S.preparedQuery,
      (S.selection evaluator c).passingTuples, [c], arrays, hpositive, ?_, ?_⟩, rfl⟩
    · exact fun c' hc' => List.mem_singleton.mp hc' ▸ hslot.1
    · have hskip : ¬ ((S.selection evaluator c).passingTuples = 0 ∨
          (S.pdxData.cluster c).numEmbeddings = 0) := by
        have := hslot.2
        omega
      rw [visitClusters, if_neg (by simpa using hskip)]
      simp only [visitClusters, visitCluster, hsize, if_pos hpositive]
      rw [helems, hall]
      exact Multiset.mem_add.mpr (Or.inl (Multiset.mem_map_of_mem _ (Multiset.mem_coe.mpr hmem)))

end Searcher

end PDXearch
