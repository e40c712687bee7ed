import PDXearch.Kernel.Search
import PDXearch.Kernel.ProbeRuns

/-!
# What a search accounts for

A search answers for the candidates of the clusters it is to probe: it offers some of them to the
heap, and of each other one it knows what the threshold that dropped it tells. `DropRule` names
that knowledge as a property `P` of the candidate and the greatest distance in the heap; which
property it is depends on the pruner and on the quantization.
-/

namespace PDXearch

open Lib ExactFloat Client

variable {K E D M : Type} [Zero E] [AddCommMonoid M]

/-- A measure of the distances in every cluster of a searcher's index to its prepared query. -/
structure DistanceMeasure (S : Searcher K E D) (M : Type) [AddCommMonoid M] where
  term : Nat → Nat → Nat → M
  embed : M → D
  measures : ∀ c, Measures S.pdxData.quantization S.preparedQuery (S.pdxData.cluster c).data
    S.pdxData.numVerticalDimensions S.pdxData.numHorizontalDimensions
    (S.pdxData.cluster c).numEmbeddings (term c) embed

namespace DistanceMeasure

variable {S : Searcher K E D} (μ : DistanceMeasure S M)

/-- The distance of the vector in slot `i` of cluster `c`, over all dimensions. -/
def slotDistance (c i : Nat) : M :=
  fullSum (μ.term c) S.pdxData.numVerticalDimensions S.pdxData.numHorizontalDimensions i

/-- The candidate for the vector in slot `i` of cluster `c`. -/
def candidate (c i : Nat) : KNNCandidate K :=
  ⟨(S.pdxData.cluster c).indices i,
    S.pdxData.quantization.floatOfDistance (μ.embed (μ.slotDistance c i))⟩

/-- The slots of a cluster that a filter selects. -/
def selectedSlots (S : Searcher K E D) (c : Nat) (filter : Option Selection) : List Nat :=
  (List.range (S.pdxData.cluster c).numEmbeddings).filter fun i =>
    filter.all fun sel => sel.selectionVector i

/-- The candidates of a cluster. -/
def candidates (c : Nat) (filter : Option Selection) : List (KNNCandidate K) :=
  (selectedSlots S c filter).map (μ.candidate c)

theorem mem_candidates {c : Nat} {filter : Option Selection} {x : KNNCandidate K} :
    x ∈ μ.candidates c filter ↔ ∃ i < (S.pdxData.cluster c).numEmbeddings,
      filter.all (fun sel => sel.selectionVector i) ∧ μ.candidate c i = x := by
  simp [candidates, selectedSlots, and_assoc]

theorem candidates_none (c : Nat) :
    μ.candidates c none =
      (List.range (S.pdxData.cluster c).numEmbeddings).map (μ.candidate c) := by
  simp [candidates, selectedSlots]

variable [Field K] [LinearOrder K]

/-- The measure for F32. -/
def f32 (S : Searcher K K (ExactFloat K)) (hS : S.pdxData.quantization = Quantization.f32) :
    DistanceMeasure S K where
  term c := termF32 S.preparedQuery S.pdxData.numVerticalDimensions
    (S.pdxData.cluster c).numEmbeddings (S.pdxData.cluster c).data
  embed := ofReal
  measures _ := hS ▸ Quantization.f32_measures _ _ _ _ _

/-- The measure for U8. -/
def u8 [FloorRing K] (S : Searcher K UInt8 Nat) (maxValue : UInt8)
    (params : ScalarQuantizationParams K)
    (hS : S.pdxData.quantization = Quantization.u8 maxValue params)
    (hdims : S.pdxData.numDimensions ≤ pdxMaxDims) : DistanceMeasure S Nat where
  term c := termU8 S.preparedQuery S.pdxData.numVerticalDimensions
    (S.pdxData.cluster c).numEmbeddings (S.pdxData.cluster c).data
  embed := id
  measures _ := hS ▸ Quantization.u8_measures maxValue params _ _ _
    (S.pdxData.vertical_add_horizontal ▸ hdims)

end DistanceMeasure

variable [LinearOrder K]

/-- All but `rest` was offered, or dropped as `P` says. -/
def Settled (P : KNNCandidate K → ExactFloat K → Prop) (rest : Multiset (KNNCandidate K)) :
    Multiset (KNNCandidate K) → ExactFloat K → Prop :=
  fun pend t => ∃ dropped, pend = dropped + rest ∧ ∀ x ∈ dropped, P x t

omit [LinearOrder K] in
theorem settled_self (P : KNNCandidate K → ExactFloat K → Prop)
    (rest : Multiset (KNNCandidate K)) (t : ExactFloat K) : Settled P rest rest t :=
  ⟨0, by simp, by simp⟩

variable [Field K] [LinearOrder D]

/-- What holds of a candidate that was dropped while the greatest distance in the heap was `t`, for
answers to the threshold reads as `Ok` says. It keeps holding when that distance decreases. -/
structure DropRule {S : Searcher K E D} (μ : DistanceMeasure S M)
    (Ok : ThresholdRead → ExactFloat K → Prop) (P : KNNCandidate K → ExactFloat K → Prop) :
    Prop where
  anti : ∀ {x t t'}, t' ≤ t → P x t → P x t'
  drop : ∀ {c i idx w t}, i < (S.pdxData.cluster c).numEmbeddings →
    w ≤ S.pdxData.numVerticalDimensions → idx ≤ S.pdxData.numDimensions → Ok ⟨c, idx⟩ t →
    S.getPruningThreshold t idx ≤ μ.embed (partialAt (μ.term c) S.pdxData.numVerticalDimensions
      S.pdxData.numHorizontalDimensions w idx i) → P (μ.candidate c i) t

namespace DropRule

variable {S : Searcher K E D} {μ : DistanceMeasure S M}
  {Ok : ThresholdRead → ExactFloat K → Prop} {P : KNNCandidate K → ExactFloat K → Prop}

theorem settled_anti (hP : DropRule μ Ok P) {rest pend : Multiset (KNNCandidate K)}
    {t t' : ExactFloat K} (ht : t' ≤ t) (h : Settled P rest pend t) : Settled P rest pend t' := by
  obtain ⟨dropped, hpend, hall⟩ := h
  exact ⟨dropped, hpend, fun x hx => hP.anti ht (hall x hx)⟩

theorem stable (hP : DropRule μ Ok P) {α : Type} (rest : Multiset (KNNCandidate K)) :
    Accounts.Stable (fun _ : α => Settled P rest) :=
  fun _ _ _ _ ht h => hP.settled_anti ht h

/-- One run of `Warmup` and `Prune` splits the candidates of the cluster into those that
`MergeIntoHeap` offers and those that were dropped. -/
theorem probe_split (hP : DropRule μ Ok P) {c : Nat} {filter : Option Selection}
    {s s' : ProbeState D} {tr : List (Event Nat fun _ => D)} {t : ExactFloat K}
    (hrun : (S.probe S.preparedQuery (S.pdxData.cluster c).data
      (S.pdxData.cluster c).numEmbeddings filter s).Runs tr s')
    (hall : ∀ e ∈ tr, ∃ u, t ≤ u ∧ (S.MayDrop filter e.1 → Ok ⟨c, e.1⟩ u) ∧
      e.2 = S.getPruningThreshold u e.1) :
    ∃ dropped : Multiset (KNNCandidate K),
      (μ.candidates c filter : Multiset (KNNCandidate K)) =
        (S.mergeCandidates (S.pdxData.cluster c).indices s' : Multiset (KNNCandidate K)) +
          dropped ∧
      ∀ x ∈ dropped, P x t := by
  obtain ⟨w, trWarmup, trPrune, hw, rfl, hkept, hfull, hreads, hdrops⟩ :=
    Searcher.probe_runs S.hasDims (μ.measures c) hrun
  rw [IndexPDXIVF.vertical_add_horizontal] at hreads
  let survives := Survives (μ.term c) μ.embed S.pdxData.numVerticalDimensions
    S.pdxData.numHorizontalDimensions w trPrune
  have hmerge : S.mergeCandidates (S.pdxData.cluster c).indices s' =
      ((DistanceMeasure.selectedSlots S c filter).filter survives).map (μ.candidate c) := by
    rw [DistanceMeasure.selectedSlots, List.filter_filter]
    have hlist : s'.notPruned = (List.range (S.pdxData.cluster c).numEmbeddings).filter fun i =>
        decide (survives i) && filter.all fun sel => sel.selectionVector i := by
      rw [hkept]
      exact List.filter_congr fun i _ => by rw [Bool.decide_and, Bool.and_comm, Bool.decide_eq_true]
    rw [← hlist]
    exact List.map_congr_left fun i hi => by rw [hfull i hi]; rfl
  refine ⟨((DistanceMeasure.selectedSlots S c filter).filter
    (fun i => !decide (survives i))).map (μ.candidate c), ?_, ?_⟩
  · rw [hmerge, Multiset.coe_add, ← List.map_append, DistanceMeasure.candidates]
    exact Multiset.coe_eq_coe.mpr ((List.filter_append_perm _ _).map _).symm
  · intro x hx
    obtain ⟨i, hi, rfl⟩ := List.mem_map.mp (Multiset.mem_coe.mp hx)
    obtain ⟨hslot, hdrop⟩ := List.mem_filter.mp hi
    have hin : i < (S.pdxData.cluster c).numEmbeddings :=
      List.mem_range.mp (List.mem_filter.mp hslot).1
    have hnot : ¬ survives i := by simpa using hdrop
    obtain ⟨e, he, hle⟩ := not_forall₂.mp hnot
    obtain ⟨u, hu, hok, hval⟩ := hall e (List.mem_append_right _ he)
    rw [hval, not_lt] at hle
    have hdrop := hok (hdrops (Nat.zero_lt_of_lt hin) e he)
    exact hP.anti hu (hP.drop hin hw (hreads e (List.mem_append_right _ he)) hdrop hle)

theorem probeCluster_accounts (hP : DropRule μ Ok P) (c : Nat) (filter : Nat → Option Selection)
    (s : ProbeState D) {rest pend : Multiset (KNNCandidate K)} {t : ExactFloat K}
    (h : Settled P (μ.candidates c (filter c) + rest) pend t) :
    Accounts (fun x u => S.MayDrop (filter x.clusterIdx) x.currentDimensionIdx → Ok x u)
      (fun _ => Settled P rest) pend t (S.probeCluster c (filter c) s) := by
  rw [Searcher.probeCluster]
  refine Accounts.of_looks fun s' tr t' ht' hrun hall => ?_
  obtain ⟨before, rfl, hbefore⟩ := hP.settled_anti ht' h
  obtain ⟨dropped, hsplit, hdropped⟩ := hP.probe_split hrun hall
  have hsettled : Settled P rest (before + dropped + rest) t' := by
    refine ⟨before + dropped, rfl, fun x hx => ?_⟩
    rcases Multiset.mem_add.mp hx with hx | hx
    · exact hbefore x hx
    · exact hdropped x hx
  have hpend : before + (μ.candidates c (filter c) + rest) =
      (S.mergeCandidates (S.pdxData.cluster c).indices s' : Multiset (KNNCandidate K)) +
        (before + dropped + rest) := by
    rw [hsplit]
    abel
  split
  · exact .offer hpend fun t'' ht'' => .done (hP.settled_anti ht'' hsettled)
  · rename_i hzero
    have hnil : S.mergeCandidates (S.pdxData.cluster c).indices s' = [] := by
      simp only [ne_eq, not_not] at hzero
      simp [Searcher.mergeCandidates, ProbeState.notPruned, hzero]
    rw [hpend, hnil, Multiset.coe_nil, zero_add]
    exact .done hsettled

/-- The loop over clusters, by induction over the clusters that are left. Skipped clusters must
have no candidates. -/
theorem probeClusters_accounts (hP : DropRule μ Ok P) {skip : Nat → Bool}
    (filter : Nat → Option Selection) {clusters : List Nat}
    (hskip : ∀ c ∈ clusters, skip c → μ.candidates c (filter c) = []) (s : ProbeState D)
    (rest : Multiset (KNNCandidate K)) {pend : Multiset (KNNCandidate K)} {t : ExactFloat K}
    (h : Settled P (clusters.flatMap (fun c => μ.candidates c (filter c)) + rest) pend t) :
    Accounts (fun x u => S.MayDrop (filter x.clusterIdx) x.currentDimensionIdx → Ok x u)
      (fun _ => Settled P rest) pend t (S.probeClusters skip filter clusters s) := by
  induction clusters generalizing s pend t with
  | nil => exact .done (by simpa using h)
  | cons c clusters ih =>
    have ih := ih fun c hc => hskip c (List.mem_cons_of_mem _ hc)
    rw [List.flatMap_cons, ← Multiset.coe_add, add_assoc] at h
    refine .note ?_
    split
    · rename_i hc
      refine ih s ?_
      rwa [hskip c List.mem_cons_self hc, Multiset.coe_nil, zero_add] at h
    · exact (hP.probeCluster_accounts c filter s h).bind fun s' pend' t' _ h' => ih s' h'

/-- `Search`, with answers as `Ok` says to those reads that may drop vectors. -/
theorem search_accounts_of_mayDrop (hP : DropRule μ Ok P) (numClustersToProbe : Nat)
    (arrays : ProbeState D) (t : ExactFloat K) :
    Accounts (fun x u => S.MayDrop none x.currentDimensionIdx → Ok x u) (fun _ => Settled P 0)
      ((S.searchClusters numClustersToProbe).flatMap fun c => μ.candidates c none) t
      (S.search numClustersToProbe arrays) := by
  refine (hP.probeClusters_accounts (fun _ => none) ?_ arrays 0 ?_).bind
    fun _ _ _ _ h => .done h
  · intro c _ hc
    have hempty : (S.pdxData.cluster c).numEmbeddings = 0 := by simpa using hc
    simp [DistanceMeasure.candidates_none, hempty]
  · rw [add_zero]
    exact settled_self P _ t

theorem search_accounts (hP : DropRule μ Ok P) (numClustersToProbe : Nat) (arrays : ProbeState D)
    (t : ExactFloat K) :
    Accounts Ok (fun _ => Settled P 0)
      ((S.searchClusters numClustersToProbe).flatMap fun c => μ.candidates c none) t
      (S.search numClustersToProbe arrays) :=
  (hP.search_accounts_of_mayDrop numClustersToProbe arrays t).imp
    fun x u (hok : Ok x u) (_ : S.MayDrop none x.currentDimensionIdx) => hok

/-- A filtered search accounts for the selected vectors of the clusters that its cursor passes. -/
theorem filteredSearch_accounts (hP : DropRule μ Ok P) {evaluator : PredicateEvaluator}
    (hevaluator : S.predicateEvaluator = some evaluator)
    (hcounts : ∀ c ∈ S.clusterIndicesInAccessOrder, (S.selection evaluator c).passingTuples = 0 →
      μ.candidates c (some (S.selection evaluator c)) = [])
    (numClustersToTryToProbe : Nat) (arrays : ProbeState D) (t : ExactFloat K) :
    Accounts Ok
      (fun S' pend t => S' = S.advance numClustersToTryToProbe ∧ Settled P 0 pend t)
      ((S.filteredSearchClusters numClustersToTryToProbe).flatMap fun c =>
        μ.candidates c (some (S.selection evaluator c))) t
      (S.filteredSearch numClustersToTryToProbe arrays) := by
  rw [Searcher.filteredSearch, hevaluator]
  let filter := fun c => some (S.selection evaluator c)
  refine ((hP.probeClusters_accounts filter ?_ arrays 0 ?_).imp
    fun x u (hok : Ok x u) (_ : S.MayDrop (filter x.clusterIdx) x.currentDimensionIdx) =>
      hok).bind fun _ _ _ _ h => .done ⟨rfl, h⟩
  · intro c hc hskip
    rcases of_decide_eq_true hskip with hzero | hempty
    · exact hcounts c (List.mem_of_mem_take (List.mem_of_mem_drop hc)) hzero
    · simp [DistanceMeasure.candidates, DistanceMeasure.selectedSlots, hempty]
  · rw [add_zero]
    exact settled_self P _ t

end DropRule

/-! ## The clusters that are passed -/

section Passed

variable {S : Searcher K E D}

omit [AddCommMonoid M] [LinearOrder K]

theorem probeCluster_notes (c : Nat) (filter : Option Selection) (s : ProbeState D) :
    Notes [] (S.probeCluster c filter s) := by
  refine (Notes.of_looks _).bind_done fun s' => ?_
  split
  · exact .offer .done
  · exact .done

theorem probeClusters_notes (skip : Nat → Bool) (filter : Nat → Option Selection)
    (clusters : List Nat) (s : ProbeState D) :
    Notes clusters (S.probeClusters skip filter clusters s) := by
  induction clusters generalizing s with
  | nil => exact .done
  | cons c clusters ih =>
    refine .note ?_
    split
    · exact ih s
    · exact (probeCluster_notes c (filter c) s).bind ih

/-- A filtered search passes its cursor over the same clusters in every run. -/
theorem filteredSearch_notes {evaluator : PredicateEvaluator}
    (hevaluator : S.predicateEvaluator = some evaluator) (numClustersToTryToProbe : Nat)
    (arrays : ProbeState D) :
    Notes (S.filteredSearchClusters numClustersToTryToProbe)
      (S.filteredSearch numClustersToTryToProbe arrays) := by
  rw [Searcher.filteredSearch, hevaluator]
  exact (probeClusters_notes _ _ _ _).bind_done fun _ => .done

end Passed

/-! ## What is offered -/

section Offers

variable {S : Searcher K E D}

omit [AddCommMonoid M] [LinearOrder K] in
/-- One cluster offers what `Warmup` and `Prune` left. -/
theorem probeCluster_offers_merged {c : Nat} {filter : Option Selection} {s s' : ProbeState D}
    {tr : List (Event (QueueOp ThresholdRead (KNNCandidate K) Nat) (QueueOp.Res (ExactFloat K)))}
    (hrun : (S.probeCluster c filter s).Runs tr s') :
    ∃ tr' s₁, (S.probe S.preparedQuery (S.pdxData.cluster c).data (S.pdxData.cluster c).numEmbeddings
        filter (S.startCluster s)).Runs tr' s₁ ∧
      ∀ x ∈ offers tr, x ∈ S.mergeCandidates (S.pdxData.cluster c).indices s₁ := by
  obtain ⟨s₁, tr₁, tr₂, rfl, hlooks, hmerge⟩ := runs_bind_iff.mp hrun
  obtain ⟨hnone, tr', hprobe⟩ := runs_looks hlooks
  refine ⟨tr', s₁, hprobe, ?_⟩
  rw [offers_append, hnone, List.nil_append]
  intro x hx
  split at hmerge
  · obtain ⟨_, tr'', rfl, hrest⟩ := runs_call_iff.mp hmerge
    obtain ⟨rfl, rfl⟩ := runs_done_iff.mp hrest
    rw [offers_cons_offer] at hx
    exact (List.mem_append.mp hx).resolve_right List.not_mem_nil
  · obtain ⟨rfl, -⟩ := runs_done_iff.mp hmerge
    exact absurd hx List.not_mem_nil

omit [AddCommMonoid M] [LinearOrder K] in
/-- Several clusters: what holds of the offers of each one. -/
theorem probeClusters_offers_of {P : Nat → KNNCandidate K → Prop} {skip : Nat → Bool}
    {filter : Nat → Option Selection}
    (hP : ∀ c s s' tr, (S.probeCluster c (filter c) s).Runs tr s' → ∀ x ∈ offers tr, P c x)
    {clusters : List Nat} {s s' : ProbeState D}
    {tr : List (Event (QueueOp ThresholdRead (KNNCandidate K) Nat) (QueueOp.Res (ExactFloat K)))}
    (hrun : (S.probeClusters skip filter clusters s).Runs tr s') :
    ∀ x ∈ offers tr, ∃ c ∈ clusters, P c x := by
  induction clusters generalizing s tr with
  | nil =>
    obtain ⟨rfl, -⟩ := runs_done_iff.mp hrun
    exact fun x hx => absurd hx List.not_mem_nil
  | cons c clusters ih =>
    obtain ⟨_, tr', rfl, hnext⟩ := runs_call_iff.mp hrun
    intro x hx
    change x ∈ offers tr' at hx
    split at hnext
    · obtain ⟨c', hc', hmem⟩ := ih hnext x hx
      exact ⟨c', List.mem_cons_of_mem _ hc', hmem⟩
    · obtain ⟨s₁, tr₁, tr₂, rfl, hcluster, hrest⟩ := runs_bind_iff.mp hnext
      rcases List.mem_append.mp (offers_append tr₁ tr₂ ▸ hx) with hx | hx
      · exact ⟨c, List.mem_cons_self, hP c _ _ _ hcluster x hx⟩
      · obtain ⟨c', hc', hmem⟩ := ih hrest x hx
        exact ⟨c', List.mem_cons_of_mem _ hc', hmem⟩

variable (μ : DistanceMeasure S M)

omit [LinearOrder K] in
theorem probeCluster_offers {c : Nat} {filter : Option Selection} {s s' : ProbeState D}
    {tr : List (Event (QueueOp ThresholdRead (KNNCandidate K) Nat) (QueueOp.Res (ExactFloat K)))}
    (hrun : (S.probeCluster c filter s).Runs tr s') :
    ∀ x ∈ offers tr, x ∈ μ.candidates c filter := by
  obtain ⟨tr', s₁, hprobe, hmerged⟩ := probeCluster_offers_merged hrun
  obtain ⟨w, _, trPrune, -, -, hkept, hfull, -⟩ :=
    Searcher.probe_runs S.hasDims (μ.measures c) hprobe
  intro x hx
  obtain ⟨i, hi, rfl⟩ := List.mem_map.mp (hmerged x hx)
  have hmem := hkept ▸ hi
  simp only [List.mem_filter, List.mem_range, decide_eq_true_eq] at hmem
  refine μ.mem_candidates.mpr ⟨i, hmem.1, hmem.2.1, ?_⟩
  rw [hfull i hi]
  rfl

omit [LinearOrder K] in
/-- Only vectors that the filters of the clusters select are offered, whatever the answers. -/
theorem probeClusters_offers {skip : Nat → Bool} {filter : Nat → Option Selection}
    {clusters : List Nat} {s s' : ProbeState D}
    {tr : List (Event (QueueOp ThresholdRead (KNNCandidate K) Nat) (QueueOp.Res (ExactFloat K)))}
    (hrun : (S.probeClusters skip filter clusters s).Runs tr s') :
    ∀ x ∈ offers tr, ∃ c ∈ clusters, x ∈ μ.candidates c (filter c) :=
  probeClusters_offers_of (fun _ _ _ _ h => probeCluster_offers μ h) hrun

end Offers

end PDXearch
