import PDXearch.Kernel.StartRuns
import Mathlib.Tactic.Linarith

/-!
# What a probe reads

A probe of a cluster reads the dimensions of the query, the distances of the cluster's vectors and
the positions that it wrote itself, and nothing else of its arrays. So two probes from states that
agree on these make the same calls and end in states that agree (`Alike`). In particular a filter
that lets every vector of the cluster pass is as good as no filter.
-/

namespace PDXearch

open Lib Client

/-! ## The distance computers -/

/-- The dimensions in the given range and the distances of the vectors visited are all that is read
besides the data. -/
structure Quantization.Local {K E D : Type} (Q : Quantization K E D) : Prop where
  vertical : ∀ {skip : Bool} {query query' data : Nat → E} {m n a b : Nat} {distances distances' :
      Nat → D} {positions positions' : Nat → Nat} {s : Set Nat},
    (∀ d, a ≤ d → d < b → query d = query' d) →
    visited skip positions m = visited skip positions' m → Set.EqOn distances distances' s →
    Set.EqOn (Q.vertical skip query data m n a b distances positions)
      (Q.vertical skip query' data m n a b distances' positions') s
  horizontal : ∀ {query query' data : Nat → E} {n : Nat}, (∀ d < n, query d = query' d) →
    Q.horizontal query data n = Q.horizontal query' data n

namespace Quantization

theorem f32_local {K : Type} [Field K] [LinearOrder K] :
    Local (f32 : Quantization K K (ExactFloat K)) where
  vertical {skip query query' data m n a b distances distances' positions positions' s} hquery hvisited
      h := by
    show Set.EqOn (verticalF32 skip query data m n a b distances positions)
      (verticalF32 skip query' data m n a b distances' positions') s
    unfold verticalF32
    rw [hvisited]
    refine eqOn_foldl h fun step hstep d d' hd => ?_
    have hdim := hquery (a + step) (Nat.le_add_right _ _)
      (Nat.add_lt_of_lt_sub' (List.mem_range.mp hstep))
    simp only [hdim]
    exact eqOn_foldl hd fun x _ d d' hd => eqOn_update hd fun hx => by rw [hd hx]
  horizontal {query query' data n} hquery := by
    show horizontalF32 query data n = horizontalF32 query' data n
    rw [horizontalF32_eq, horizontalF32_eq]
    congr 1
    refine Finset.sum_congr rfl fun d hd => ?_
    rw [hquery d (Finset.mem_range.mp hd)]

theorem u8_local {K : Type} [Field K] [LinearOrder K] [FloorRing K] (maxValue : UInt8)
    (params : ScalarQuantizationParams K) : Local (u8 maxValue params) where
  vertical {skip query query' data m n a b distances distances' positions positions' s} hquery hvisited
      h := by
    show Set.EqOn (verticalU8 skip query data m n a b distances positions)
      (verticalU8 skip query' data m n a b distances' positions') s
    have hgroup : ∀ step < (b - a) / 4, ∀ t < 4,
        query (a + 4 * step + t) = query' (a + 4 * step + t) := by
      intro step hstep t ht
      apply hquery <;> omega
    unfold verticalU8
    simp only [hvisited, u8InterleaveSize]
    have hgroups : ∀ step ∈ List.range ((b - a) / 4), query (a + 4 * step) = query' (a + 4 * step) ∧
        query (a + 4 * step + 1) = query' (a + 4 * step + 1) ∧
        query (a + 4 * step + 2) = query' (a + 4 * step + 2) ∧
        query (a + 4 * step + 3) = query' (a + 4 * step + 3) := by
      intro step hstep
      have hlt := List.mem_range.mp hstep
      exact ⟨hgroup step hlt 0 (by omega), hgroup step hlt 1 (by omega),
        hgroup step hlt 2 (by omega), hgroup step hlt 3 (by omega)⟩
    split
    · refine eqOn_foldl (eqOn_foldl h fun step hstep d d' hd => ?_) fun x _ d d' hd => ?_
      · obtain ⟨h0, h1, h2, h3⟩ := hgroups step hstep
        exact eqOn_foldl hd fun x _ d d' hd => eqOn_update hd fun hx => by
          rw [hd hx, h0, h1, h2, h3]
      · refine eqOn_update hd fun hx => ?_
        rw [hd hx]
        refine List.foldl_ext _ _ _ fun y k hk => ?_
        have hlt := List.mem_range.mp hk
        rw [hquery (a + 4 * ((b - a) / 4) + k) (by omega) (by omega)]
    · refine eqOn_foldl h fun step hstep d d' hd => ?_
      obtain ⟨h0, h1, h2, h3⟩ := hgroups step hstep
      exact eqOn_foldl hd fun x _ d d' hd => eqOn_update hd fun hx => by
        rw [hd hx, h0, h1, h2, h3]
  horizontal {query query' data n} hquery := by
    show horizontalU8 query data n = horizontalU8 query' data n
    rw [horizontalU8_eq, horizontalU8_eq]
    congr 1
    refine Finset.sum_congr rfl fun d hd => ?_
    rw [hquery d (Finset.mem_range.mp hd)]

end Quantization

/-! ## Probes -/

/-- The states agree on what is read of them. -/
structure Alike {D : Type} (n : Nat) (s s' : ProbeState D) : Prop where
  notPruned : s.notPruned = s'.notPruned
  lt : ∀ i ∈ s.notPruned, i < n
  distances : Set.EqOn s.pruningDistances s'.pruningDistances (Set.Iio n)
  currentDimensionIdx : s.currentDimensionIdx = s'.currentDimensionIdx

theorem Alike.nVectorsNotPruned {D : Type} {n : Nat} {s s' : ProbeState D} (h : Alike n s s') :
    s.nVectorsNotPruned = s'.nVectorsNotPruned := by
  have hlength := congrArg List.length h.notPruned
  simpa [ProbeState.notPruned] using hlength

theorem Alike.withDistances {D : Type} {n : Nat} {s s' : ProbeState D} (h : Alike n s s')
    {distances distances' : Nat → D} (hd : Set.EqOn distances distances' (Set.Iio n)) :
    Alike n { s with pruningDistances := distances } { s' with pruningDistances := distances' } :=
  ⟨h.notPruned, h.lt, hd, h.currentDimensionIdx⟩

/-- Before the positions are written nothing is kept. -/
theorem alike_of_empty {D : Type} {n : Nat} {s s' : ProbeState D} (hs : s.nVectorsNotPruned = 0)
    (hs' : s'.nVectorsNotPruned = 0) (hidx : s.currentDimensionIdx = s'.currentDimensionIdx)
    (h : Set.EqOn s.pruningDistances s'.pruningDistances (Set.Iio n)) : Alike n s s' := by
  have hempty : s.notPruned = [] := by simp [ProbeState.notPruned, hs]
  have hempty' : s'.notPruned = [] := by simp [ProbeState.notPruned, hs']
  refine ⟨hempty.trans hempty'.symm, ?_, h, hidx⟩
  simp [hempty]

/-- The same filter, or one that all of the `n` vectors pass in place of none. -/
inductive SamePassing (n : Nat) : Option Selection → Option Selection → Prop
  | refl (filter : Option Selection) : SamePassing n filter filter
  | all {selection : Selection} (hn : 0 < n) (hcount : selection.passingTuples = n)
      (hall : ∀ i < n, selection.selectionVector i = true) : SamePassing n (some selection) none

section Probe

variable {K E D : Type} [LinearOrder D] {S : Searcher K E D} {query query' data : Nat → E} {n : Nat}
  {s s' : ProbeState D} {filter filter' : Option Selection}

theorem evaluatePruningPredicateScalar_congr {distances distances' : Nat → D} {threshold : D}
    (h : Set.EqOn distances distances' (Set.Iio n)) :
    evaluatePruningPredicateScalar 0 n distances threshold =
      evaluatePruningPredicateScalar 0 n distances' threshold := by
  unfold evaluatePruningPredicateScalar
  refine List.foldl_ext _ _ _ fun k i hi => ?_
  rw [h (List.mem_range.mp hi)]

/-- One test. -/
theorem testNotPruned_sim (h : Alike n s s') {idx idx' : Nat} (hidx : idx = idx') :
    Sim (Alike n) (Searcher.testNotPruned idx s) (Searcher.testNotPruned idx' s') := by
  subst hidx
  refine .call fun threshold => .done ?_
  have hkept := evaluatePruningPredicateOnPositionsArray_kept s.nVectorsNotPruned
    s.pruningPositions threshold s.pruningDistances
  have hkept' := evaluatePruningPredicateOnPositionsArray_kept s'.nVectorsNotPruned
    s'.pruningPositions threshold s'.pruningDistances
  have hfilter : s.notPruned.filter (fun i => s.pruningDistances i < threshold) =
      s'.notPruned.filter fun i => s'.pruningDistances i < threshold := by
    rw [← h.notPruned]
    refine List.filter_congr fun i hi => ?_
    rw [h.distances (h.lt i hi)]
  constructor
  · exact hkept.trans (hfilter.trans hkept'.symm)
  · intro i hi
    have hmem : i ∈ s.notPruned.filter (fun i => s.pruningDistances i < threshold) := by
      unfold ProbeState.notPruned
      rw [← hkept]
      exact hi
    exact h.lt i (List.mem_of_mem_filter hmem)
  · exact h.distances
  · rfl

variable (hlocal : S.pdxData.quantization.Local)
  (hquery : ∀ d < S.pdxData.numDimensions, query d = query' d)

include hlocal hquery

theorem warmupLoop_sim {tuplesNeededToExit : Nat} {sizes : List Nat} {nTuplesToPrune : Nat}
    (h : Alike n s s') :
    Sim (Alike n) (S.warmupLoop query data n tuplesNeededToExit sizes nTuplesToPrune s)
      (S.warmupLoop query' data n tuplesNeededToExit sizes nTuplesToPrune s') := by
  have hsplit := S.pdxData.vertical_add_horizontal
  induction sizes generalizing nTuplesToPrune s s' with
  | nil => exact .done h
  | cons size sizes ih =>
    unfold Searcher.warmupLoop
    rw [h.currentDimensionIdx]
    split
    · have hdistances : Set.EqOn
          (S.pdxData.quantization.vertical false query data n n s'.currentDimensionIdx
            (min (s'.currentDimensionIdx + size) S.pdxData.numVerticalDimensions)
            s.pruningDistances s.pruningPositions)
          (S.pdxData.quantization.vertical false query' data n n s'.currentDimensionIdx
            (min (s'.currentDimensionIdx + size) S.pdxData.numVerticalDimensions)
            s'.pruningDistances s'.pruningPositions) (Set.Iio n) := by
        refine hlocal.vertical (fun d _ hd => hquery d (by omega)) ?_ h.distances
        simp only [visited_false]
      refine .call fun threshold => ?_
      rw [evaluatePruningPredicateScalar_congr hdistances]
      exact ih ⟨h.notPruned, h.lt, hdistances, rfl⟩
    · exact .done h

theorem warmup_sim (hfilter : SamePassing n filter filter') (hthreshold : 0 ≤ S.selectivityThreshold)
    (hs : s.nVectorsNotPruned = 0) (hs' : s'.nVectorsNotPruned = 0) :
    Sim (Alike n) (S.warmup query data n filter s) (S.warmup query' data n filter' s') := by
  have hreset : Set.EqOn (resetPruningDistances S.pdxData.quantization n s.pruningDistances)
      (resetPruningDistances S.pdxData.quantization n s'.pruningDistances) (Set.Iio n) := by
    intro i hi
    have hlt : i < n := hi
    rw [resetPruningDistances_apply, resetPruningDistances_apply, if_pos hlt, if_pos hlt]
  unfold Searcher.warmup
  cases hfilter with
  | refl =>
    cases filter with
    | none =>
      exact .call fun threshold => warmupLoop_sim hlocal hquery (alike_of_empty hs hs' rfl hreset)
    | some selection =>
      have hmask : Set.EqOn
          (maskDistancesWithSelectionVector S.pdxData.quantization n
            (resetPruningDistances S.pdxData.quantization n s.pruningDistances)
            selection.selectionVector)
          (maskDistancesWithSelectionVector S.pdxData.quantization n
            (resetPruningDistances S.pdxData.quantization n s'.pruningDistances)
            selection.selectionVector) (Set.Iio n) := by
        intro i hi
        rw [maskDistancesWithSelectionVector_apply, maskDistancesWithSelectionVector_apply,
          hreset hi]
      simp only
      split
      · exact .done (alike_of_empty hs hs' rfl hmask)
      · exact .call fun threshold => warmupLoop_sim hlocal hquery (alike_of_empty hs hs' rfl hmask)
  | @all selection hn hcount hall =>
    have hmask : Set.EqOn
        (maskDistancesWithSelectionVector S.pdxData.quantization n
          (resetPruningDistances S.pdxData.quantization n s.pruningDistances)
          selection.selectionVector)
        (resetPruningDistances S.pdxData.quantization n s'.pruningDistances) (Set.Iio n) := by
      intro i hi
      have hlt : i < n := hi
      rw [maskDistancesWithSelectionVector_apply, if_pos hlt, hall i hlt, ← hreset hi]
      simp
    -- the percentage is one
    have hpercentage : ¬ ((selection.passingTuples : Rat) / n < 1 - S.selectivityThreshold) := by
      have hpos : (n : Rat) ≠ 0 := Nat.cast_ne_zero.mpr hn.ne'
      rw [hcount, div_self hpos, not_lt]
      linarith
    simp only [if_neg hpercentage]
    exact .call fun threshold => warmupLoop_sim hlocal hquery (alike_of_empty hs hs' rfl hmask)

/-- The loop over the horizontal blocks. -/
theorem pruneHorizontal_sim {fuel b : Nat} (hb : hDimSize ∣ b) (h : Alike n s s') :
    Sim (Alike n) (S.pruneHorizontal query data n fuel b s)
      (S.pruneHorizontal query' data n fuel b s') := by
  have hsplit := S.pdxData.vertical_add_horizontal
  have hdvd := S.pdxData.hDimSize_dvd
  induction fuel generalizing b s s' with
  | zero => exact .done h
  | succ fuel ih =>
    unfold Searcher.pruneHorizontal
    by_cases hcond : S.pdxData.numHorizontalDimensions ≠ 0 ∧ s'.nVectorsNotPruned ≠ 0 ∧
        b < S.pdxData.numHorizontalDimensions
    · rw [if_pos (h.nVectorsNotPruned ▸ hcond), if_pos hcond]
      obtain ⟨c, rfl⟩ := hb
      obtain ⟨e, he⟩ := hdvd
      have hlt := hcond.2.2
      rw [he] at hlt
      have hce : c < e := Nat.lt_of_mul_lt_mul_left hlt
      have hblock : hDimSize * c + hDimSize ≤ S.pdxData.numHorizontalDimensions := by
        rw [he, ← Nat.mul_succ]
        exact Nat.mul_le_mul_left _ hce
      refine Sim.bind (testNotPruned_sim (h.withDistances ?_)
        (congrArg (· + hDimSize) h.currentDimensionIdx))
        fun t t' ht => ih (Dvd.dvd.add (Nat.dvd_mul_right _ _) (Nat.dvd_refl _)) ht
      simp only [h.notPruned]
      refine eqOn_foldl h.distances fun i _ d d' hd => eqOn_update hd fun hi => ?_
      rw [hd hi]
      congr 1
      exact hlocal.horizontal fun d hd => hquery _ (by omega)
    · rw [if_neg (h.nVectorsNotPruned ▸ hcond), if_neg hcond]
      exact .done h

/-- The loop over the vertical dimensions that are left. -/
theorem pruneVertical_sim {fuel a : Nat} (h : Alike n s s') :
    Sim (Alike n) (S.pruneVertical query data n fuel a s)
      (S.pruneVertical query' data n fuel a s') := by
  have hsplit := S.pdxData.vertical_add_horizontal
  induction fuel generalizing a s s' with
  | zero => exact .done h
  | succ fuel ih =>
    unfold Searcher.pruneVertical
    by_cases hcond : s'.nVectorsNotPruned ≠ 0 ∧ a < S.pdxData.numVerticalDimensions
    · rw [if_pos (h.nVectorsNotPruned ▸ hcond), if_pos hcond]
      refine Sim.bind (testNotPruned_sim (h.withDistances ?_)
        (congrArg (fun idx => min (idx + hDimSize) S.pdxData.numDimensions) h.currentDimensionIdx))
        fun t t' ht => ?_
      · have hvisited : visited true s.pruningPositions s.nVectorsNotPruned =
            visited true s'.pruningPositions s'.nVectorsNotPruned := by
          rw [visited_true, visited_true]
          exact h.notPruned
        rw [h.nVectorsNotPruned] at hvisited ⊢
        exact hlocal.vertical (fun d _ hd => hquery d (by omega)) hvisited h.distances
      · rw [ht.currentDimensionIdx]
        split
        · exact .done ht
        · exact ih ht
    · rw [if_neg (h.nVectorsNotPruned ▸ hcond), if_neg hcond]
      exact .done h

theorem prune_sim (hfilter : SamePassing n filter filter') (h : Alike n s s') :
    Sim (Alike n) (S.prune query data n filter s) (S.prune query' data n filter' s') := by
  obtain ⟨positions, distances, threshold, idx, count⟩ := s
  obtain ⟨positions', distances', threshold', idx', count'⟩ := s'
  obtain rfl : idx = idx' := h.currentDimensionIdx
  refine .call fun threshold => ?_
  refine Sim.bind (pruneHorizontal_sim hlocal hquery (Nat.dvd_zero _) ?_)
    fun t t' ht => pruneVertical_sim hlocal hquery ht
  have hkept := initPositionsArray_kept n positions threshold distances
    (filter.map Selection.selectionVector)
  have hkept' := initPositionsArray_kept n positions' threshold distances'
    (filter'.map Selection.selectionVector)
  have hsame : (List.range n).filter (fun i => distances i < threshold ∧
      (filter.map Selection.selectionVector).all fun sel => sel i) =
      (List.range n).filter fun i => distances' i < threshold ∧
        (filter'.map Selection.selectionVector).all fun sel => sel i := by
    refine List.filter_congr fun i hi => ?_
    have hlt := List.mem_range.mp hi
    have hdistances : distances i = distances' i := h.distances hlt
    rw [hdistances]
    cases hfilter with
    | refl => rfl
    | all _ _ hall => simp [hall i hlt]
  constructor
  · exact hkept.trans (hsame.trans hkept'.symm)
  · intro i hi
    have hmem : i ∈ (List.range n).filter (fun i => distances i < threshold ∧
        (filter.map Selection.selectionVector).all fun sel => sel i) := by
      rw [← hkept]
      exact hi
    exact List.mem_range.mp (List.mem_of_mem_filter hmem)
  · exact h.distances
  · rfl

theorem probe_sim (hfilter : SamePassing n filter filter') (hthreshold : 0 ≤ S.selectivityThreshold)
    (hs : s.nVectorsNotPruned = 0) (hs' : s'.nVectorsNotPruned = 0) :
    Sim (Alike n) (S.probe query data n filter s) (S.probe query' data n filter' s') :=
  Sim.bind (warmup_sim hlocal hquery hfilter hthreshold hs hs')
    fun _ _ h => prune_sim hlocal hquery hfilter h

end Probe

/-! ## Searches -/

namespace Searcher

section Searches

variable {K E D : Type} {S S' : Searcher K E D}

/-- The searchers probe a cluster in the same way: what is left may differ. -/
structure ProbesAlike (S S' : Searcher K E D) : Prop where
  pruner : S'.pruner = S.pruner
  pdxData : S'.pdxData = S.pdxData
  selectivityThreshold : S'.selectivityThreshold = S.selectivityThreshold
  preparedQuery : ∀ d < S.pdxData.numDimensions, S.preparedQuery d = S'.preparedQuery d

/-- They also choose the same clusters, with the same filters. -/
structure SearchesAlike (S S' : Searcher K E D) : Prop extends ProbesAlike S S' where
  clusterOffsets : S'.clusterOffsets = S.clusterOffsets
  clusterIndicesInAccessOrder : S'.clusterIndicesInAccessOrder = S.clusterIndicesInAccessOrder
  clusterIndicesInAccessOrderOffset :
    S'.clusterIndicesInAccessOrderOffset = S.clusterIndicesInAccessOrderOffset
  predicateEvaluator : S'.predicateEvaluator = S.predicateEvaluator

theorem ProbesAlike.probe_eq [LinearOrder D] (h : ProbesAlike S S') : S'.probe = S.probe := by
  obtain ⟨pruner, pdxData, offsets, threshold, nprobe, total, greatest, order, cursor, k, prepared,
    evaluator⟩ := S
  obtain ⟨pruner', pdxData', offsets', threshold', nprobe', total', greatest', order', cursor', k',
    prepared', evaluator'⟩ := S'
  obtain rfl : pdxData' = pdxData := h.pdxData
  obtain rfl : threshold' = threshold := h.selectivityThreshold
  delta probe warmup warmupLoop prune pruneHorizontal pruneVertical
  rfl

theorem mergeCandidates_congr {n : Nat} {s s' : ProbeState D} (h : Alike n s s')
    (vectorIndices : Nat → Nat) :
    S.mergeCandidates vectorIndices s = S.mergeCandidates vectorIndices s' := by
  unfold mergeCandidates
  rw [← h.notPruned]
  refine List.map_congr_left fun i hi => ?_
  rw [h.distances (h.lt i hi)]

variable [Field K] [Zero E] [LinearOrder D] (hlocal : S.pdxData.quantization.Local)
  (hthreshold : 0 ≤ S.selectivityThreshold)

include hlocal hthreshold

/-- One cluster. -/
theorem probeCluster_sim (h : ProbesAlike S S') {c : Nat} {filter filter' : Option Selection}
    (hfilter : SamePassing (S.pdxData.cluster c).numEmbeddings filter filter')
    (s s' : ProbeState D) :
    Sim (fun _ _ => True) (S.probeCluster c filter s) (S'.probeCluster c filter' s') := by
  have hread : S'.getPruningThreshold = S.getPruningThreshold := by
    funext top idx
    unfold getPruningThreshold
    rw [h.pruner, h.pdxData]
  have hmerge : S'.mergeCandidates = S.mergeCandidates := by
    funext vectorIndices t
    unfold mergeCandidates
    rw [h.pdxData]
  unfold probeCluster
  rw [h.probe_eq, hread, hmerge, h.pdxData]
  refine Sim.bind (Sim.interp (probe_sim hlocal h.preparedQuery hfilter hthreshold rfl rfl))
    fun t t' ht => ?_
  rw [ht.nVectorsNotPruned, mergeCandidates_congr ht]
  split
  · exact .call fun _ => .done trivial
  · exact .done trivial

/-- Several clusters, by induction over those that are left. -/
theorem probeClusters_sim (h : ProbesAlike S S') {skip skip' : Nat → Bool}
    {filter filter' : Nat → Option Selection} {clusters : List Nat}
    (hskip : ∀ c ∈ clusters, skip c = skip' c)
    (hfilter : ∀ c ∈ clusters, skip c = false →
      SamePassing (S.pdxData.cluster c).numEmbeddings (filter c) (filter' c))
    (s s' : ProbeState D) :
    Sim (fun _ _ => True) (S.probeClusters skip filter clusters s)
      (S'.probeClusters skip' filter' clusters s') := by
  induction clusters generalizing s s' with
  | nil => exact .done trivial
  | cons c clusters ih =>
    have ih' := ih (fun c hc => hskip c (List.mem_cons_of_mem _ hc))
      fun c hc => hfilter c (List.mem_cons_of_mem _ hc)
    unfold probeClusters
    refine .call fun _ => ?_
    rw [← hskip c List.mem_cons_self]
    split
    · exact ih' s s'
    · rename_i hc
      have hpassing := hfilter c List.mem_cons_self (by simpa using hc)
      exact Sim.bind (probeCluster_sim hlocal hthreshold h hpassing s s')
        fun t t' _ => ih' t t'

/-- `Search` makes the same calls whatever its arrays held. -/
theorem search_eq (h : SearchesAlike S S') (n : Nat) (arrays arrays' : ProbeState D) :
    S.search n arrays = S'.search n arrays' := by
  have hclusters : S'.searchClusters n = S.searchClusters n := by
    unfold searchClusters
    rw [h.clusterIndicesInAccessOrder, h.pdxData]
  unfold search
  rw [hclusters]
  refine Sim.eq (Sim.bind (probeClusters_sim hlocal hthreshold h.toProbesAlike (fun c _ => ?_)
    (fun c _ _ => .refl none) arrays arrays') fun _ _ _ => .done rfl)
  rw [h.pdxData]

/-- So does `FilteredSearch`, and the searchers stay alike. -/
theorem filteredSearch_sim (h : SearchesAlike S S') (n : Nat) (arrays arrays' : ProbeState D) :
    Sim (fun S₁ S₂ => SearchesAlike S₁ S₂ ∧ S₁.pdxData = S.pdxData ∧
        S₁.selectivityThreshold = S.selectivityThreshold)
      (S.filteredSearch n arrays) (S'.filteredSearch n arrays') := by
  unfold filteredSearch
  rw [h.predicateEvaluator]
  cases S.predicateEvaluator with
  | none => exact .done ⟨h, rfl, rfl⟩
  | some evaluator =>
    have hselection : S'.selection evaluator = S.selection evaluator := by
      funext c
      unfold selection
      rw [h.clusterOffsets]
    have hend : S'.filteredEndIdx n = S.filteredEndIdx n := by
      unfold filteredEndIdx
      rw [h.clusterIndicesInAccessOrderOffset, h.pdxData]
    have hclusters : S'.filteredSearchClusters n = S.filteredSearchClusters n := by
      unfold filteredSearchClusters
      rw [hend, h.clusterIndicesInAccessOrder, h.clusterIndicesInAccessOrderOffset]
    have hadvance : SearchesAlike (S.advance n) (S'.advance n) := by
      refine ⟨⟨h.pruner, h.pdxData, h.selectivityThreshold, h.preparedQuery⟩, h.clusterOffsets,
        h.clusterIndicesInAccessOrder, ?_, h.predicateEvaluator⟩
      unfold advance
      rw [hend, h.clusterIndicesInAccessOrderOffset]
    simp only [hselection, hclusters]
    refine Sim.bind (probeClusters_sim hlocal hthreshold h.toProbesAlike (fun c _ => ?_)
      (fun c _ _ => .refl _) arrays arrays') fun _ _ _ => .done ⟨hadvance, rfl, rfl⟩
    rw [h.pdxData]

end Searches

end Searcher

end PDXearch
