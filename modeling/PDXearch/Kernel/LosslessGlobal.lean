import PDXearch.Kernel.DropRules
import PDXearch.Kernel.StartRuns
import PDXearch.Lib.HandOver

/-!
# Lossless global search

In the global implementation the clusters are batches that are taken into the heap one after the
other: in full or the best of them while the heap has room, losslessly after that. The batch that
fills the heap is cut: `Start` drops what does not fit without comparing it with the heap. So the
search is exact exactly when the cut is harmless.
-/

namespace PDXearch

open Lib ExactFloat PriorityQueue

/-- The selected vectors of a cluster. -/
def vectorsF32 {K : Type} [Field K] [LinearOrder K] (S : Searcher K K (ExactFloat K)) (c : Nat)
    (filter : Option Selection) : List (KNNCandidate K) :=
  (DistanceMeasure.selectedSlots S c filter).map (vectorF32 S c)

namespace Searcher

variable {K : Type} [Field K] [LinearOrder K]
  {S : Searcher K K (ExactFloat K)} {H : Type} [Heap H K]

theorem candidates_f32 (hS : S.pdxData.quantization = Quantization.f32) (c : Nat)
    (filter : Option Selection) :
    (DistanceMeasure.f32 S hS).candidates c filter = vectorsF32 S c filter :=
  List.map_congr_left fun i _ => candidate_f32 hS c i

/-- A full heap: nothing is lost, since what is dropped is no nearer than its top. -/
theorem probe_takes_f32 [IsStrictOrderedRing K] (hS : S.pdxData.quantization = Quantization.f32)
    (hdims : S.pruner.numDimensions = S.pdxData.numDimensions) (hlossless : S.pruner.Lossless)
    {k : Nat} (hk : 0 < k) (c : Nat) (filter : Option Selection) {heap : H}
    (hfull : (elems heap).card = k) (s : ProbeState (ExactFloat K)) :
    IsKSmallest KNNCandidate.distance k
      ((vectorsF32 S c filter : Multiset (KNNCandidate K)) + elems heap)
      (elems (S.mergeIntoHeap (S.pdxData.cluster c).indices k
        ((S.probe S.preparedQuery (S.pdxData.cluster c).data (S.pdxData.cluster c).numEmbeddings
          filter s).eval fun idx => S.getPruningThreshold (topKey heap) idx) heap)) := by
  obtain ⟨tr, hrun, hall⟩ := Client.exists_runs_eval
    (S.probe S.preparedQuery (S.pdxData.cluster c).data (S.pdxData.cluster c).numEmbeddings filter s)
    fun idx => S.getPruningThreshold (topKey heap) idx
  obtain ⟨dropped, hsplit, hdropped⟩ := (lossless_f32 hS hdims hlossless).probe_split
    (t := topKey heap) hrun fun e he => ⟨topKey heap, le_rfl, fun _ => trivial, hall e he⟩
  rw [candidates_f32 hS] at hsplit
  rw [hsplit, add_assoc]
  refine offerAll_isKSmallest hk ?_ _
  exact (IsKSmallest.self hfull.le).add_left hfull fun y hy x hx =>
    (le_topKey hx).trans (hdropped y hy)

/-- A heap with room: the nearest vectors of the cluster are inserted. -/
theorem start_takes_f32 (hS : S.pdxData.quantization = Quantization.f32) (std : StdSort) (k c : Nat)
    (s : ProbeState (ExactFloat K)) (heap : H) :
    ∃ best, IsKSmallest KNNCandidate.distance (k - (elems heap).card) (vectorsF32 S c none) best ∧
      elems (S.start S.preparedQuery (S.pdxData.cluster c).data std
        (S.pdxData.cluster c).numEmbeddings k (S.pdxData.cluster c).indices s heap).1 =
        elems heap + best := by
  obtain ⟨inserted, hkeep, helems⟩ := start_inserts S.hasDims
    ((DistanceMeasure.f32 S hS).measures c) std k (S.pdxData.cluster c).indices s heap
  rw [size_eq] at hkeep
  refine ⟨_, ?_, helems.trans (add_comm _ _)⟩
  have hmap : IsKSmallest KNNCandidate.distance (k - (elems heap).card)
      ((List.range (S.pdxData.cluster c).numEmbeddings : Multiset Nat).map
        ((DistanceMeasure.f32 S hS).candidate c))
      ((inserted : Multiset Nat).map ((DistanceMeasure.f32 S hS).candidate c)) := by
    refine IsKSmallest.map (hkeep.congr_key fun i _ j _ hle => ?_)
    rwa [candidate_f32_distance, candidate_f32_distance]
  rw [Multiset.map_coe, Multiset.map_coe, ← DistanceMeasure.candidates_none, candidates_f32] at hmap
  exact hmap

theorem filteredStart_takes_f32 (hS : S.pdxData.quantization = Quantization.f32) (std : StdSort)
    (k c : Nat) {selection : Selection}
    (hcount : selection.passingTuples =
      (selectedBy selection (S.pdxData.cluster c).numEmbeddings).length)
    (s : ProbeState (ExactFloat K)) (heap : H) :
    ∃ best, IsKSmallest KNNCandidate.distance (k - (elems heap).card)
        (vectorsF32 S c (some selection)) best ∧
      elems (S.filteredStart S.preparedQuery (S.pdxData.cluster c).data std
        (S.pdxData.cluster c).numEmbeddings k (S.pdxData.cluster c).indices selection s heap).1 =
        elems heap + best := by
  have hmark : ∀ i < (S.pdxData.cluster c).numEmbeddings,
      (DistanceMeasure.f32 S hS).embed (fullSum ((DistanceMeasure.f32 S hS).term c)
        S.pdxData.numVerticalDimensions S.pdxData.numHorizontalDimensions i) <
      S.pdxData.quantization.halfMax := fun i _ => by
    rw [hS]
    exact ofReal_lt_halfMax _
  obtain ⟨inserted, -, -, helems, hselected⟩ := filteredStart_inserts S.hasDims
    ((DistanceMeasure.f32 S hS).measures c) hmark std k (S.pdxData.cluster c).indices selection s
    heap
  obtain ⟨hall, hkeep⟩ := hselected hcount.le
  rw [hcount, ← Multiset.coe_card, size_eq] at hkeep
  refine ⟨_, ?_, helems.trans (add_comm _ _)⟩
  have hmap : IsKSmallest KNNCandidate.distance (k - (elems heap).card)
      ((selectedBy selection (S.pdxData.cluster c).numEmbeddings : Multiset Nat).map
        ((DistanceMeasure.f32 S hS).candidate c))
      ((inserted : Multiset Nat).map ((DistanceMeasure.f32 S hS).candidate c)) := by
    refine IsKSmallest.map (hkeep.of_min.congr_key fun i _ j _ hle => ?_)
    rwa [candidate_f32_distance, candidate_f32_distance]
  rw [Multiset.map_coe, Multiset.map_coe] at hmap
  have hvectors : (selectedBy selection (S.pdxData.cluster c).numEmbeddings).map
      ((DistanceMeasure.f32 S hS).candidate c) = vectorsF32 S c (some selection) :=
    candidates_f32 hS c (some selection)
  have hinserted : inserted.map (fun i => (⟨(S.pdxData.cluster c).indices i,
      S.pdxData.quantization.floatOfDistance (if selection.selectionVector i then
        (DistanceMeasure.f32 S hS).embed (fullSum ((DistanceMeasure.f32 S hS).term c)
          S.pdxData.numVerticalDimensions S.pdxData.numHorizontalDimensions i)
        else S.pdxData.quantization.halfMax)⟩ : KNNCandidate K)) =
      inserted.map ((DistanceMeasure.f32 S hS).candidate c) :=
    List.map_congr_left fun i hi => by rw [if_pos (hall i hi)]; rfl
  rw [hinserted, ← hvectors]
  exact hmap

/-- The number that goes with a selection vector is that of the vectors it selects. -/
def SelectionCounts (S : Searcher K K (ExactFloat K)) (c : Nat) (filter : Option Selection) : Prop :=
  ∀ selection ∈ filter, selection.passingTuples =
    (selectedBy selection (S.pdxData.cluster c).numEmbeddings).length

variable [IsStrictOrderedRing K] (hS : S.pdxData.quantization = Quantization.f32)
  (hdims : S.pruner.numDimensions = S.pdxData.numDimensions) (hlossless : S.pruner.Lossless)
  {k : Nat} (hk : 0 < k)

include hS hdims hlossless hk in
theorem visitCluster_takes (std : StdSort) {filter : Option Selection} {c : Nat}
    (hcounts : SelectionCounts S c filter) (heap : H) (s : ProbeState (ExactFloat K)) :
    Takes KNNCandidate.distance k (vectorsF32 S c filter) (elems heap)
      (elems (S.visitCluster std k S.preparedQuery c filter heap s).1) := by
  constructor
  · intro hroom
    rw [← size_eq] at hroom
    cases filter with
    | none =>
      simp only [visitCluster, if_pos hroom]
      exact start_takes_f32 hS std k c _ heap
    | some selection =>
      simp only [visitCluster, if_pos hroom]
      exact filteredStart_takes_f32 hS std k c (hcounts selection rfl) _ heap
  · intro hfull
    have hsize : ¬ size heap < k := by
      rw [size_eq]
      omega
    have hprobe := probe_takes_f32 hS hdims hlossless hk c filter hfull (S.startCluster s)
    simp only [visitCluster, if_neg hsize]
    split
    · exact hprobe
    · rename_i hzero
      rw [ne_eq, not_not] at hzero
      rwa [mergeIntoHeap, mergeCandidates, ProbeState.notPruned, hzero] at hprobe

include hS hdims hlossless hk in
/-- The loop over the clusters. Skipped clusters must have no candidates. -/
theorem visitClusters_takesAll (std : StdSort) {skip : Nat → Bool} {filter : Nat → Option Selection}
    {clusters : List Nat} (hskip : ∀ c ∈ clusters, skip c → vectorsF32 S c (filter c) = [])
    (hcounts : ∀ c ∈ clusters, SelectionCounts S c (filter c)) (heap : H)
    (hheap : (elems heap).card ≤ k) (s : ProbeState (ExactFloat K)) :
    TakesAll KNNCandidate.distance k
        (clusters.map fun c => (vectorsF32 S c (filter c) : Multiset (KNNCandidate K)))
        (elems heap) (elems (S.visitClusters std k S.preparedQuery skip filter clusters heap s)) ∧
      (elems (S.visitClusters std k S.preparedQuery skip filter clusters heap s)).card ≤ k := by
  induction clusters generalizing heap s with
  | nil => exact ⟨.nil _, hheap⟩
  | cons c clusters ih =>
    have ih := ih (fun c hc => hskip c (List.mem_cons_of_mem _ hc))
      fun c hc => hcounts c (List.mem_cons_of_mem _ hc)
    rw [List.map_cons, visitClusters]
    split
    · rename_i hc
      obtain ⟨htakes, hcard⟩ := ih heap hheap s
      refine ⟨.cons ?_ htakes, hcard⟩
      rw [hskip c List.mem_cons_self hc]
      exact Takes.zero _ _ _
    · have hstep := visitCluster_takes hS hdims hlossless hk std
        (hcounts c List.mem_cons_self) heap s
      obtain ⟨htakes, hcard⟩ := ih _ (hstep.card_le hheap)
        (S.visitCluster std k S.preparedQuery c (filter c) heap s).2
      exact ⟨.cons hstep htakes, hcard⟩

omit [IsStrictOrderedRing K] in
theorem lt_top_of_mem_vectorsF32 {c : Nat} {filter : Option Selection} {x : KNNCandidate K}
    (hx : x ∈ vectorsF32 S c filter) : x.distance < ⊤ := by
  obtain ⟨i, -, rfl⟩ := List.mem_map.mp hx
  exact ofReal_lt_top _

include hS hdims hlossless hk in
/-- The result of the loop, read off the heap. -/
theorem visitClusters_exact_iff (std : StdSort) {skip : Nat → Bool}
    {filter : Nat → Option Selection} {clusters : List Nat}
    (hskip : ∀ c ∈ clusters, skip c → vectorsF32 S c (filter c) = [])
    (hcounts : ∀ c ∈ clusters, SelectionCounts S c (filter c)) (s : ProbeState (ExactFloat K)) :
    (IsKSmallest KNNCandidate.distance k
        (clusters.map fun c => (vectorsF32 S c (filter c) : Multiset (KNNCandidate K))).sum
        (buildResultSetFromHeap k (S.visitClusters std k S.preparedQuery skip filter clusters
          (empty : H) s)) ∧
      (buildResultSetFromHeap k (S.visitClusters std k S.preparedQuery skip filter clusters
          (empty : H) s)).Pairwise (fun a b => a.distance ≤ b.distance)) ↔
    CutHarmless KNNCandidate.distance k 0
      (clusters.map fun c => (vectorsF32 S c (filter c) : Multiset (KNNCandidate K))) := by
  have hempty : (elems (empty : H)).card ≤ k := by simp
  obtain ⟨htakes, hcard⟩ := visitClusters_takesAll hS hdims hlossless hk std hskip hcounts _ hempty s
  rw [elems_empty] at htakes
  have hlt : ∀ x ∈ elems (S.visitClusters std k S.preparedQuery skip filter clusters (empty : H) s),
      x.distance < ⊤ := by
    intro x hx
    obtain ⟨B, hB, hxB⟩ := (htakes.mem_or (Nat.zero_le k) hx).resolve_left (Multiset.notMem_zero x)
    obtain ⟨c, -, rfl⟩ := List.mem_map.mp hB
    exact lt_top_of_mem_vectorsF32 (Multiset.mem_coe.mp hxB)
  obtain ⟨hresult, hsorted⟩ := buildResultSetFromHeap_of_lt_top hlt hcard
  have hiff := takesAll_iff htakes (by simpa using hk)
  rw [zero_add, ← hresult] at hiff
  rw [and_iff_left hsorted, hiff]

omit [IsStrictOrderedRing K] in
theorem mem_visitedClusters (std : StdSort) (query : Nat → K) {c : Nat}
    (hc : c ∈ S.visitedClusters std query) : c < S.pdxData.numClusters :=
  List.mem_range.mp ((getClustersAccessOrderIVF_perm std query _ _).mem_iff.mp
    (List.mem_of_mem_take hc))

omit [IsStrictOrderedRing K] in
theorem vectorsF32_eq_nil {c : Nat} {filter : Option Selection}
    (hc : (S.pdxData.cluster c).numEmbeddings = 0) : vectorsF32 S c filter = [] := by
  simp [vectorsF32, DistanceMeasure.selectedSlots, hc]

/-- The clusters that a global search visits, as the vectors that it is to choose from. -/
def visitedVectors (S : Searcher K K (ExactFloat K)) (std : StdSort) (query : Nat → K)
    (filter : Nat → Option Selection) : List (Multiset (KNNCandidate K)) :=
  (S.visitedClusters std query).map fun c =>
    (vectorsF32 (S.withQuery (S.pdxData.quantization.prepareQuery query)) c (filter c) :
      Multiset (KNNCandidate K))

/-- `SearchGlobal` and `FilteredSearchGlobal` return the nearest vectors, in order, exactly when the
cut of the cluster that fills the heap is harmless. -/
theorem searchGlobal_exact_iff (S : Searcher K K (ExactFloat K))
    (hS : S.pdxData.quantization = Quantization.f32)
    (hdims : S.pruner.numDimensions = S.pdxData.numDimensions) (hlossless : S.pruner.Lossless)
    (std : StdSort) (fl sqrt : K → K) (memory rawQuery : Nat → K) (k : Nat) (hk : 0 < k)
    (evaluator : PredicateEvaluator)
    (hcounts : ∀ c < S.pdxData.numClusters, SelectionCounts S c (some (S.selection evaluator c)))
    (arrays : ProbeState (ExactFloat K)) (H : Type) [Heap H K] :
    ((IsKSmallest KNNCandidate.distance k
          (S.visitedVectors std (S.globalQuery fl sqrt memory rawQuery) fun _ => none).sum
          (S.searchGlobal H std fl sqrt memory rawQuery k arrays) ∧
        (S.searchGlobal H std fl sqrt memory rawQuery k arrays).Pairwise
          (fun a b => a.distance ≤ b.distance)) ↔
      CutHarmless KNNCandidate.distance k 0
        (S.visitedVectors std (S.globalQuery fl sqrt memory rawQuery) fun _ => none)) ∧
    ((IsKSmallest KNNCandidate.distance k
          (S.visitedVectors std (S.globalQuery fl sqrt memory rawQuery)
            fun c => some (S.selection evaluator c)).sum
          (S.filteredSearchGlobal H std fl sqrt memory rawQuery k evaluator arrays) ∧
        (S.filteredSearchGlobal H std fl sqrt memory rawQuery k evaluator arrays).Pairwise
          (fun a b => a.distance ≤ b.distance)) ↔
      CutHarmless KNNCandidate.distance k 0
        (S.visitedVectors std (S.globalQuery fl sqrt memory rawQuery)
          fun c => some (S.selection evaluator c))) := by
  set query := S.globalQuery fl sqrt memory rawQuery
  constructor
  · rw [searchGlobal, ← visitClusters_withQuery S std k (S.pdxData.quantization.prepareQuery query)]
    refine visitClusters_exact_iff (S := S.withQuery (S.pdxData.quantization.prepareQuery query)) hS
      hdims hlossless hk std (fun c _ hc => vectorsF32_eq_nil (of_decide_eq_true hc)) (fun c _ => ?_)
      arrays
    rintro selection ⟨⟩
  · rw [filteredSearchGlobal,
      ← visitClusters_withQuery S std k (S.pdxData.quantization.prepareQuery query)]
    refine visitClusters_exact_iff (S := S.withQuery (S.pdxData.quantization.prepareQuery query)) hS
      hdims hlossless hk std (fun c hc hskip => ?_)
      (fun c hc => hcounts c (mem_visitedClusters std query hc)) arrays
    rcases of_decide_eq_true hskip with hzero | hempty
    · have hnone := hcounts c (mem_visitedClusters std query hc) _ rfl
      rw [hzero] at hnone
      exact List.map_eq_nil_iff.mpr (List.length_eq_zero_iff.mp hnone.symm)
    · exact vectorsF32_eq_nil hempty

/-! ## A lost neighbour -/

/-- One dimension: `-3` in the first cluster, `1`, `2` and `20` in the second, with the means as
centroids. No ratio is below one. -/
def twoClusters : Searcher Rat Rat (ExactFloat Rat) :=
  Searcher.new ⟨1, 0, fun _ => 1, fun _ => 1⟩
    { numDimensions := 1
      totalNumEmbeddings := 4
      numClusters := 2
      clusters := [⟨1, fun _ => 0, fun _ => -3⟩, ⟨3, fun i => i + 1, fun i => [1, 2, 20].getD i 0⟩]
      isNormalized := false
      centroids := fun c => [-3, 23 / 3].getD c 0
      quantization := Quantization.f32 }

/-- Arrays as they are allocated. -/
def zeroArrays : ProbeState (ExactFloat Rat) := .const (ofReal 0)

/-- Two neighbours of `0`: the far vector of the first cluster takes one of the two places, and of
the second cluster only `1` is inserted. -/
theorem searchGlobal_twoClusters :
    twoClusters.searchGlobal (SortedQueue (KNNCandidate.distance (K := Rat))) StdSort.insertion id id
      (fun _ => 0) (fun _ => 0) 2 zeroArrays = [⟨1, ofReal 1⟩, ⟨0, ofReal 9⟩] := by
  decide +kernel

theorem searchGlobal_loses_neighbour :
    ¬ IsKSmallest KNNCandidate.distance 2
      (twoClusters.visitedVectors StdSort.insertion
        (twoClusters.globalQuery id id (fun _ => 0) fun _ => 0) fun _ => none).sum
      (twoClusters.searchGlobal (SortedQueue (KNNCandidate.distance (K := Rat))) StdSort.insertion id id
        (fun _ => 0) (fun _ => 0) 2 zeroArrays) := by
  rw [searchGlobal_twoClusters]
  refine IsKSmallest.not_of_lost (x := ⟨0, ofReal 9⟩) (y := ⟨2, ofReal 4⟩) ?_ ?_ ?_ ?_
  · decide +kernel
  · decide +kernel
  · decide +kernel
  · decide +kernel

theorem searchGlobal_exact_iff_twoClusters :
    (IsKSmallest KNNCandidate.distance 2
        (twoClusters.visitedVectors StdSort.insertion
          (twoClusters.globalQuery id id (fun _ => 0) fun _ => 0) fun _ => none).sum
        (twoClusters.searchGlobal (SortedQueue (KNNCandidate.distance (K := Rat)))
          StdSort.insertion id id (fun _ => 0) (fun _ => 0) 2 zeroArrays) ∧
      (twoClusters.searchGlobal (SortedQueue (KNNCandidate.distance (K := Rat)))
        StdSort.insertion id id (fun _ => 0) (fun _ => 0) 2 zeroArrays).Pairwise
        (fun a b => a.distance ≤ b.distance)) ↔
    CutHarmless KNNCandidate.distance 2 0
      (twoClusters.visitedVectors StdSort.insertion
        (twoClusters.globalQuery id id (fun _ => 0) fun _ => 0) fun _ => none) :=
  (searchGlobal_exact_iff twoClusters rfl rfl (fun _ _ => le_rfl) StdSort.insertion id id
    (fun _ => 0) (fun _ => 0) 2 (by decide) (PredicateEvaluator.new 2)
    (fun c _ selection hselection => by
      obtain rfl := Option.mem_some_iff.mp hselection
      simp [selection, PredicateEvaluator.new, PredicateEvaluator.getSelectionVector, selectedBy])
    zeroArrays (SortedQueue (KNNCandidate.distance (K := Rat)))).1

end Searcher

end PDXearch
