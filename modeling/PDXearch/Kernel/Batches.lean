import PDXearch.Kernel.QueryHistory
import PDXearch.Kernel.SearchAccounts

/-!
# Filtered searches that filter nothing

`FilteredSearch` is taken up again where the call before it stopped. With an evaluator that lets
every vector pass, calls of any batch sizes make the same threshold reads and offer the same
candidates as one `Search` over all the clusters together.
-/

namespace PDXearch

open Lib ExactFloat Client

namespace Searcher

section Batches

variable {K E D : Type} [Zero E]

/-- Every stored vector passes. -/
def AllPass (S : Searcher K E D) (evaluator : PredicateEvaluator) : Prop :=
  ∀ c < S.pdxData.numClusters,
    (S.selection evaluator c).passingTuples = (S.pdxData.cluster c).numEmbeddings ∧
    ∀ i < (S.pdxData.cluster c).numEmbeddings,
      (S.selection evaluator c).selectionVector i = true

theorem AllPass.samePassing {S : Searcher K E D} {evaluator : PredicateEvaluator}
    (h : S.AllPass evaluator) {c : Nat} (hc : c < S.pdxData.numClusters)
    (hpos : 0 < (S.pdxData.cluster c).numEmbeddings) :
    SamePassing (S.pdxData.cluster c).numEmbeddings (some (S.selection evaluator c)) none :=
  .all hpos (h c hc).1 (h c hc).2

variable [Field K] [LinearOrder D] {S T : Searcher K E D}

/-- The clusters that one call leaves are those of the next calls. -/
theorem probeClusters_append (skip : Nat → Bool) (filter : Nat → Option Selection)
    (clusters clusters' : List Nat) (s : ProbeState D) :
    S.probeClusters skip filter (clusters ++ clusters') s =
      S.probeClusters skip filter clusters s >>= S.probeClusters skip filter clusters' := by
  induction clusters generalizing s with
  | nil => rfl
  | cons c clusters ih =>
    rw [List.cons_append]
    unfold probeClusters
    rw [call_bind]
    congr 1
    funext _
    split
    · exact ih s
    · rw [bind_assoc]
      congr 1
      funext t
      exact ih t

omit [Zero E] [Field K] [LinearOrder D] in
/-- The clusters from a cursor on, cut at a later one. -/
theorem drop_take_append {xs : List Nat} {a b c : Nat} (hab : a ≤ b) (hbc : b ≤ c) :
    (xs.take c).drop a = (xs.take b).drop a ++ (xs.take c).drop b := by
  have hsum : c - a = (b - a) + (c - b) := by omega
  rw [List.drop_take, List.drop_take, List.drop_take, hsum, List.take_add, List.drop_drop,
    Nat.add_sub_cancel' hab]

/-- Batches from any cursor on, by induction over the batches; `T` searches without a filter. -/
theorem runCalls_filteredSearch_sim (hlocal : S.pdxData.quantization.Local)
    (hthreshold : 0 ≤ S.selectivityThreshold) (h : ProbesAlike S T)
    {evaluator : PredicateEvaluator} (hevaluator : S.predicateEvaluator = some evaluator)
    (hall : S.AllPass evaluator)
    (horder : ∀ c ∈ S.clusterIndicesInAccessOrder, c < S.pdxData.numClusters)
    (hcursor : S.clusterIndicesInAccessOrderOffset ≤ S.pdxData.numClusters) (batches : List Nat)
    (arrays : Nat → ProbeState D) (s : ProbeState D) :
    Sim (fun S₁ _ => S₁.clusterIndicesInAccessOrderOffset =
        min (S.clusterIndicesInAccessOrderOffset + batches.sum) S.pdxData.numClusters)
      (runCalls (batches.map SearchCall.filteredSearch) arrays S)
      (T.probeClusters (fun c => (T.pdxData.cluster c).numEmbeddings = 0) (fun _ => none)
        ((S.clusterIndicesInAccessOrder.take (min (S.clusterIndicesInAccessOrderOffset + batches.sum)
          S.pdxData.numClusters)).drop S.clusterIndicesInAccessOrderOffset) s) := by
  induction batches generalizing S arrays s with
  | nil =>
    have hempty : (S.clusterIndicesInAccessOrder.take
        (min (S.clusterIndicesInAccessOrderOffset + [].sum) S.pdxData.numClusters)).drop
        S.clusterIndicesInAccessOrderOffset = [] := by
      apply List.drop_eq_nil_of_le
      simp
    rw [hempty]
    refine .done ?_
    simpa using hcursor
  | cons b batches ih =>
    have hnext : (S.advance b).clusterIndicesInAccessOrderOffset = S.filteredEndIdx b := by
      apply max_eq_right
      exact le_min (Nat.le_add_right _ _) hcursor
    have hend : min (S.clusterIndicesInAccessOrderOffset + (b :: batches).sum)
        S.pdxData.numClusters = min (S.filteredEndIdx b + batches.sum) S.pdxData.numClusters := by
      unfold filteredEndIdx
      rw [List.sum_cons]
      omega
    have hbegin : S.clusterIndicesInAccessOrderOffset ≤ S.filteredEndIdx b :=
      le_min (Nat.le_add_right _ _) hcursor
    have hle : S.filteredEndIdx b ≤ S.pdxData.numClusters := min_le_right _ _
    have hrest := ih (S := S.advance b) hlocal hthreshold
      ⟨h.pruner, h.pdxData, h.selectivityThreshold, h.preparedQuery⟩ hevaluator hall horder
      (hnext ▸ hle) (fun i => arrays (i + 1))
    rw [hnext] at hrest
    rw [hend, drop_take_append hbegin (le_min (Nat.le_add_right _ _) hle), probeClusters_append,
      List.map_cons]
    unfold runCalls filteredSearch
    simp only [hevaluator, bind_assoc, done_bind]
    refine Sim.bind (probeClusters_sim hlocal hthreshold h ?_ ?_ (arrays 0) s)
      fun _ t _ => hrest t
    · intro c hc
      have hlt := horder c (List.mem_of_mem_take (List.mem_of_mem_drop hc))
      rw [(hall c hlt).1, h.pdxData]
      simp
    · intro c hc hskip
      have hlt := horder c (List.mem_of_mem_take (List.mem_of_mem_drop hc))
      refine hall.samePassing hlt ?_
      simp only [decide_eq_false_iff_not, not_or] at hskip
      omega

/-- From the first cluster on, the calls are those of one `Search`. -/
theorem runCalls_filteredSearch_search_sim (hlocal : S.pdxData.quantization.Local)
    (hthreshold : 0 ≤ S.selectivityThreshold) (h : ProbesAlike S T)
    (hsame : T.clusterIndicesInAccessOrder = S.clusterIndicesInAccessOrder)
    {evaluator : PredicateEvaluator} (hevaluator : S.predicateEvaluator = some evaluator)
    (hall : S.AllPass evaluator)
    (horder : ∀ c ∈ S.clusterIndicesInAccessOrder, c < S.pdxData.numClusters)
    (hcursor : S.clusterIndicesInAccessOrderOffset = 0) (batches : List Nat)
    (arrays : Nat → ProbeState D) (arrays' : ProbeState D) :
    Sim (fun S₁ _ => S₁.clusterIndicesInAccessOrderOffset = min batches.sum S.pdxData.numClusters)
      (runCalls (batches.map SearchCall.filteredSearch) arrays S) (T.search batches.sum arrays') := by
  have hsim := runCalls_filteredSearch_sim hlocal hthreshold h hevaluator hall horder
    (hcursor ▸ Nat.zero_le _) batches arrays arrays'
  rw [hcursor, Nat.zero_add, List.drop_zero] at hsim
  unfold search searchClusters
  rw [hsame, h.pdxData]
  rw [h.pdxData] at hsim
  exact hsim.bind_done fun _ _ hR => hR

end Batches

/-! ## Any batching -/

section Searches

variable {K E D : Type} [Field K] [LinearOrder K] [LinearOrder D] [Zero E]

/-- `InitializeSearch` with an evaluator that lets everything pass and `FilteredSearch` in batches
leave the heap as `InitializeSearch` and `Search` with the sum do; the cursor ends at the sum, or at
the number of clusters, and the clusters up to it are those that were taken up, each once, in access
order. -/
def BatchesEqSearch (H : Type) [Heap H K] (index : IndexPDXIVF K E D) : Prop :=
  ∀ (pruner : ADSamplingPruner K) (std : StdSort) (preprocessedQuery : Nat → K) (k : Nat)
    (evaluator : PredicateEvaluator) (batches : List Nat) (arrays : Nat → ProbeState D)
    (arrays' : ProbeState D) (heap : H), 0 < k → (Searcher.new pruner index).AllPass evaluator →
    let filtered := (runCalls (batches.map SearchCall.filteredSearch) arrays
      ((Searcher.new pruner index).initializeSearch std preprocessedQuery k (some evaluator))).exec
        (queueObj k) heap
    let plain := (((Searcher.new pruner index).initializeSearch std preprocessedQuery k none).search
      batches.sum arrays').exec (queueObj k) heap
    let order := getClustersAccessOrderIVF std preprocessedQuery index index.numClusters
    filtered.2.1 = plain.2.1 ∧
      filtered.2.2.clusterIndicesInAccessOrderOffset = min batches.sum index.numClusters ∧
      notes filtered.1 = order.take (min batches.sum index.numClusters) ∧ order.Nodup

theorem batchesEqSearch_of_local (H : Type) [Heap H K] {index : IndexPDXIVF K E D}
    (hlocal : index.quantization.Local) : BatchesEqSearch H index := by
  intro pruner std query k evaluator batches arrays arrays' heap _ hall filtered plain order
  have hperm : order.Perm (List.range index.numClusters) := getClustersAccessOrderIVF_perm _ _ _ _
  have hthreshold : 0 ≤ (Searcher.new pruner index).selectivityThreshold := by
    show (0 : Rat) ≤ 4 / 5
    norm_num
  have halike : ProbesAlike
      ((Searcher.new pruner index).initializeSearch std query k (some evaluator))
      ((Searcher.new pruner index).initializeSearch std query k none) :=
    ⟨rfl, rfl, rfl, fun _ _ => rfl⟩
  have hsim := runCalls_filteredSearch_search_sim
    (S := (Searcher.new pruner index).initializeSearch std query k (some evaluator)) hlocal
    hthreshold halike rfl rfl hall (fun c hc => List.mem_range.mp (hperm.mem_iff.mp hc)) rfl
    batches arrays arrays'
  obtain ⟨htrace, hheap, hend⟩ := hsim.exec (queueObj k) heap
  have hnotes : notes plain.1 = order.take (min batches.sum index.numClusters) :=
    ((probeClusters_notes _ _ _ _).bind_done fun _ => .done).notes_exec _ _
  exact ⟨hheap, hend, (congrArg notes htrace).trans hnotes, hperm.nodup_iff.mpr List.nodup_range⟩

/-- For F32 and for U8. -/
theorem batchesEqSearch {K H : Type} [Field K] [LinearOrder K] [FloorRing K] [Heap H K] :
    (∀ index : IndexPDXIVF K K (ExactFloat K), index.quantization = Quantization.f32 →
      BatchesEqSearch H index) ∧
    ∀ (index : IndexPDXIVF K UInt8 Nat) (maxValue : UInt8) (params : ScalarQuantizationParams K),
      index.quantization = Quantization.u8 maxValue params → BatchesEqSearch H index := by
  constructor
  · intro index hindex
    exact batchesEqSearch_of_local H (hindex ▸ Quantization.f32_local)
  · intro index maxValue params hindex
    exact batchesEqSearch_of_local H (hindex ▸ Quantization.u8_local maxValue params)

theorem batchesEqSearch_unitVectors :
    ((runCalls [.filteredSearch 0, .filteredSearch 2] (fun _ => constantArrays 2)
        ((Searcher.new unitPruner unitVectors).initializeSearch StdSort.insertion (fun _ => 1) 1
          (some ⟨fun _ => 2, fun _ => true, 1⟩))).exec (queueObj 1)
            (initialHeap (SortedQueue (KNNCandidate.distance (K := Rat))))).2.1 =
      ((((Searcher.new unitPruner unitVectors).initializeSearch StdSort.insertion (fun _ => 1) 1
        none).search 2 (constantArrays 3)).exec (queueObj 1)
          (initialHeap (SortedQueue (KNNCandidate.distance (K := Rat))))).2.1 :=
  (batchesEqSearch.1 unitVectors rfl unitPruner StdSort.insertion (fun _ => 1) 1
    ⟨fun _ => 2, fun _ => true, 1⟩ [0, 2] (fun _ => constantArrays 2) (constantArrays 3)
    (initialHeap _) (by decide) (fun c hc => by
      obtain rfl : c = 0 := Nat.lt_one_iff.mp hc
      exact ⟨rfl, fun _ _ => rfl⟩)).1

end Searches

end Searcher

end PDXearch
