import PDXearch.Kernel.Accumulations
import PDXearch.Kernel.ProbeRuns

/-!
# The accesses of a probe

`Warmup` and `Prune` once more, as programs that call out what could leave its range: the reads of
`DIMENSIONS_FETCHING_SIZES` and of the pruner's ratios, the calls of the distance computers and the
assertions. Only the threshold reads are answered. The loops run on fuel and return `none` when it
runs out.

Without the other calls the program is the one of `Searcher.probe` (`probeAccesses_sim`). The
invariant of its runs ties the three counters together: the visited dimensions are the vertical
and the horizontal ones, the vertical ones end on a group or with the vertical part, the
horizontal ones on a block.
-/

namespace PDXearch

open Lib Client

/-- What `Warmup` and `Prune` do besides moving counters. -/
inductive Access (D : Type) where
  /-- `GetPruningThreshold` -/
  | threshold (currentDimensionIdx : Nat)
  /-- `DIMENSIONS_FETCHING_SIZES[cur_subgrouping_size_idx]` -/
  | fetchingSize (curSubgroupingSizeIdx : Nat)
  /-- `Vertical` or `VerticalPruning`, with the arrays at the time of the call. -/
  | vertical (skipPruned : Bool) (nVectors startDimension endDimension : Nat)
      (pruningDistances : Nat → D) (pruningPositions : Nat → Nat)
  /-- `Horizontal`, whose result is added to `pruningDistance`. -/
  | horizontal (offsetQuery dataPos : Nat) (pruningDistance : D)
  | assertion (holds : Bool)

namespace Access

variable {D : Type}

/-- Only a threshold read has an answer. -/
abbrev Answer : Access D → Type
  | threshold _ => D
  | _ => Unit

/-- Keep the threshold reads. -/
def erase : (access : Access D) → ThresholdReader D access.Answer
  | threshold currentDimensionIdx => .call currentDimensionIdx .done
  | fetchingSize _ => .done ()
  | vertical .. => .done ()
  | horizontal .. => .done ()
  | assertion _ => .done ()

end Access

abbrev AccessProgram (D α : Type) : Type := Client (Access D) Access.Answer α

namespace Searcher

variable {K E D : Type} (S : Searcher K E D) (query data : Nat → E)

/-- The loop over the vectors not pruned, for one horizontal block. -/
def horizontalPass (offsetQuery offsetData : Nat) :
    List Nat → (Nat → D) → AccessProgram D (Nat → D)
  | [], distances => .done distances
  | vIdx :: vectors, distances =>
    let dataPos := offsetData + vIdx * hDimSize
    .call (.horizontal offsetQuery dataPos (distances vIdx)) fun _ =>
      horizontalPass offsetQuery offsetData vectors
        (Function.update distances vIdx (S.pdxData.quantization.add (distances vIdx)
          (S.pdxData.quantization.horizontal (fun d => query (offsetQuery + d))
            (fun d => data (dataPos + d)) hDimSize)))

variable [LinearOrder D]

/-- The loop of `Warmup`. -/
def warmupLoopAccesses (nVectors tuplesNeededToExit : Nat) :
    Nat → Nat → Nat → ProbeState D → AccessProgram D (Option (ProbeState D))
  | 0, _, _, _ => .done none
  | fuel + 1, curSubgroupingSizeIdx, nTuplesToPrune, s =>
    if nTuplesToPrune < tuplesNeededToExit ∧
        s.currentDimensionIdx < S.pdxData.numVerticalDimensions then
      .call (.fetchingSize curSubgroupingSizeIdx) fun _ =>
        let size := dimensionsFetchingSizes.getD curSubgroupingSizeIdx 0
        let lastDimensionToFetch :=
          min (s.currentDimensionIdx + size) S.pdxData.numVerticalDimensions
        .call (.vertical false nVectors s.currentDimensionIdx lastDimensionToFetch
            s.pruningDistances s.pruningPositions) fun _ =>
          let distances := S.pdxData.quantization.vertical false query data nVectors nVectors
            s.currentDimensionIdx lastDimensionToFetch s.pruningDistances s.pruningPositions
          .call (.threshold lastDimensionToFetch) fun threshold =>
            warmupLoopAccesses nVectors tuplesNeededToExit fuel (curSubgroupingSizeIdx + 1)
              (evaluatePruningPredicateScalar 0 nVectors distances threshold)
              { s with
                pruningDistances := distances
                pruningThreshold := threshold
                currentDimensionIdx := lastDimensionToFetch }
    else .done (some s)

/-- `Warmup` -/
def warmupAccesses (nVectors : Nat) (filter : Option Selection) (fuel : Nat) (s : ProbeState D) :
    AccessProgram D (Option (ProbeState D)) :=
  let tuplesNeededToExit := ⌈S.selectivityThreshold * nVectors⌉.toNat
  let s := { s with
    currentDimensionIdx := 0
    pruningDistances := resetPruningDistances S.pdxData.quantization nVectors s.pruningDistances }
  let start (s : ProbeState D) : AccessProgram D (Option (ProbeState D)) :=
    .call (.threshold s.currentDimensionIdx) fun threshold =>
      S.warmupLoopAccesses query data nVectors tuplesNeededToExit fuel 0 0
        { s with pruningThreshold := threshold }
  match filter with
  | none => start s
  | some selection =>
    let selectionPercentage : Rat := selection.passingTuples / nVectors
    let s := { s with
      pruningDistances := maskDistancesWithSelectionVector S.pdxData.quantization nVectors
        s.pruningDistances selection.selectionVector }
    if selectionPercentage < 1 - S.selectivityThreshold then .done (some s) else start s

/-- The state after a test of the vectors not pruned. -/
def keepBelow (currentDimensionIdx : Nat) (threshold : D) (s : ProbeState D) : ProbeState D :=
  let (positions, nVectorsNotPruned) := evaluatePruningPredicateOnPositionsArray
    s.nVectorsNotPruned s.pruningPositions threshold s.pruningDistances
  { s with
    pruningPositions := positions
    pruningThreshold := threshold
    currentDimensionIdx := currentDimensionIdx
    nVectorsNotPruned := nVectorsNotPruned }

/-- `Prune`, the loop over the horizontal blocks; returns `current_horizontal_dimension` too. -/
def pruneHorizontalAccesses (nVectors currentVerticalDimension : Nat) :
    Nat → Nat → ProbeState D → AccessProgram D (Option (Nat × ProbeState D))
  | 0, _, _ => .done none
  | fuel + 1, currentHorizontalDimension, s =>
    if S.pdxData.numHorizontalDimensions ≠ 0 ∧ s.nVectorsNotPruned ≠ 0 ∧
        currentHorizontalDimension < S.pdxData.numHorizontalDimensions then
      let offsetData := S.pdxData.numVerticalDimensions * nVectors +
        currentHorizontalDimension * nVectors
      let offsetQuery := S.pdxData.numVerticalDimensions + currentHorizontalDimension
      S.horizontalPass query data offsetQuery offsetData s.notPruned s.pruningDistances >>=
        fun distances =>
          let currentHorizontalDimension := currentHorizontalDimension + hDimSize
          let currentDimensionIdx := s.currentDimensionIdx + hDimSize
          .call (.threshold currentDimensionIdx) fun threshold =>
            .call (.assertion (currentDimensionIdx =
                currentVerticalDimension + currentHorizontalDimension)) fun _ =>
              pruneHorizontalAccesses nVectors currentVerticalDimension fuel
                currentHorizontalDimension
                (keepBelow currentDimensionIdx threshold { s with pruningDistances := distances })
    else .done (some (currentHorizontalDimension, s))

/-- `Prune`, the loop over the vertical dimensions that are left. -/
def pruneVerticalAccesses (nVectors currentHorizontalDimension : Nat) :
    Nat → Nat → ProbeState D → AccessProgram D (Option (ProbeState D))
  | 0, _, _ => .done none
  | fuel + 1, currentVerticalDimension, s =>
    if s.nVectorsNotPruned ≠ 0 ∧
        currentVerticalDimension < S.pdxData.numVerticalDimensions then
      let lastDimensionToTestIdx :=
        min (currentVerticalDimension + hDimSize) S.pdxData.numVerticalDimensions
      .call (.vertical true s.nVectorsNotPruned currentVerticalDimension lastDimensionToTestIdx
          s.pruningDistances s.pruningPositions) fun _ =>
        let distances := S.pdxData.quantization.vertical true query data s.nVectorsNotPruned
          nVectors currentVerticalDimension lastDimensionToTestIdx s.pruningDistances
          s.pruningPositions
        let currentDimensionIdx := min (s.currentDimensionIdx + hDimSize) S.pdxData.numDimensions
        let currentVerticalDimension :=
          min (currentVerticalDimension + hDimSize) S.pdxData.numVerticalDimensions
        .call (.assertion (currentDimensionIdx =
            currentVerticalDimension + currentHorizontalDimension)) fun _ =>
          .call (.threshold currentDimensionIdx) fun threshold =>
            let s := keepBelow currentDimensionIdx threshold
              { s with pruningDistances := distances }
            if s.currentDimensionIdx = S.pdxData.numDimensions then .done (some s)
            else pruneVerticalAccesses nVectors currentHorizontalDimension fuel
              currentVerticalDimension s
    else .done (some s)

/-- `Prune` -/
def pruneAccesses (nVectors : Nat) (filter : Option Selection) (fuel : Nat) (s : ProbeState D) :
    AccessProgram D (Option (ProbeState D)) :=
  .call (.threshold s.currentDimensionIdx) fun threshold =>
    let (positions, nVectorsNotPruned) := initPositionsArray nVectors s.pruningPositions threshold
      s.pruningDistances (filter.map Selection.selectionVector)
    S.pruneHorizontalAccesses query data nVectors s.currentDimensionIdx fuel 0
        { s with
          pruningPositions := positions
          pruningThreshold := threshold
          nVectorsNotPruned := nVectorsNotPruned } >>= fun
      | none => .done none
      | some (currentHorizontalDimension, s') =>
        S.pruneVerticalAccesses query data nVectors currentHorizontalDimension fuel
          s.currentDimensionIdx s'

/-- The calls of `Warmup` and `Prune` for one cluster. -/
def probeAccesses (nVectors : Nat) (filter : Option Selection) (fuel : Nat) (s : ProbeState D) :
    AccessProgram D (Option (ProbeState D)) :=
  S.warmupAccesses query data nVectors filter fuel s >>= fun
    | none => .done none
    | some s => S.pruneAccesses query data nVectors filter fuel s

/-! ## The same program -/

omit [LinearOrder D] in
theorem horizontalPass_erase (offsetQuery offsetData : Nat) (vectors : List Nat)
    (distances : Nat → D) :
    (S.horizontalPass query data offsetQuery offsetData vectors distances).interp Access.erase =
      .done (vectors.foldl (fun distances vIdx =>
        Function.update distances vIdx (S.pdxData.quantization.add (distances vIdx)
          (S.pdxData.quantization.horizontal (fun d => query (offsetQuery + d))
            (fun d => data (offsetData + vIdx * hDimSize + d)) hDimSize))) distances) := by
  induction vectors generalizing distances with
  | nil => rfl
  | cons vIdx vectors ih => exact ih _

theorem fetchingSizes_pos : ∀ size ∈ dimensionsFetchingSizes, 0 < size := by decide

variable {S query data}

/-- An entry of the table as long as there are dimensions to fetch. -/
theorem drop_fetchingSizes {idx a v : Nat} (ha : a < v)
    (hsum : v ≤ a + (dimensionsFetchingSizes.drop idx).sum) :
    idx < dimensionsFetchingSizes.length ∧
      dimensionsFetchingSizes.drop idx = dimensionsFetchingSizes.getD idx 0 ::
        dimensionsFetchingSizes.drop (idx + 1) := by
  have hidx : idx < dimensionsFetchingSizes.length := by
    by_contra hge
    rw [List.drop_eq_nil_of_le (Nat.le_of_not_lt hge), List.sum_nil] at hsum
    omega
  refine ⟨hidx, ?_⟩
  rw [List.drop_eq_getElem_cons hidx, List.getD_eq_getElem _ _ hidx]

theorem warmupLoopAccesses_sim {n tuples fuel idx count : Nat} {s : ProbeState D}
    (hsum : S.pdxData.numVerticalDimensions ≤
      s.currentDimensionIdx + (dimensionsFetchingSizes.drop idx).sum)
    (hfuel : S.pdxData.numVerticalDimensions - s.currentDimensionIdx < fuel) :
    Sim (fun r s' => r = some s')
      ((S.warmupLoopAccesses query data n tuples fuel idx count s).interp Access.erase)
      (S.warmupLoop query data n tuples (dimensionsFetchingSizes.drop idx) count s) := by
  induction fuel generalizing idx count s with
  | zero => omega
  | succ fuel ih =>
    unfold warmupLoopAccesses
    split
    · rename_i hcond
      obtain ⟨hidx, hdrop⟩ := drop_fetchingSizes hcond.2 hsum
      have hpos : 0 < dimensionsFetchingSizes.getD idx 0 := by
        rw [List.getD_eq_getElem _ _ hidx]
        exact fetchingSizes_pos _ (List.getElem_mem hidx)
      rw [hdrop, List.sum_cons] at hsum
      rw [hdrop, warmupLoop, if_pos hcond]
      refine .call fun threshold => ih ?_ ?_
      · simp only
        omega
      · simp only
        omega
    · rename_i hcond
      have hdone : S.warmupLoop query data n tuples (dimensionsFetchingSizes.drop idx) count s =
          .done s := by
        cases dimensionsFetchingSizes.drop idx with
        | nil => rfl
        | cons size sizes => rw [warmupLoop, if_neg hcond]
      rw [hdone]
      exact .done rfl

omit [LinearOrder D] in
theorem numVerticalDimensions_le (S : Searcher K E D) :
    S.pdxData.numVerticalDimensions ≤ S.pdxData.numDimensions := by
  have hsplit := S.pdxData.vertical_add_horizontal
  omega

theorem warmupAccesses_sim (hdims : S.pdxData.numDimensions ≤ pdxMaxDims) {n fuel : Nat}
    {filter : Option Selection} {s : ProbeState D} (hfuel : S.pdxData.numDimensions < fuel) :
    Sim (fun r s' => r = some s')
      ((S.warmupAccesses query data n filter fuel s).interp Access.erase)
      (S.warmup query data n filter s) := by
  have hle := numVerticalDimensions_le S
  have hstart : ∀ {tuples : Nat} {s : ProbeState D}, s.currentDimensionIdx = 0 →
      Sim (fun r s' => r = some s')
        ((S.warmupLoopAccesses query data n tuples fuel 0 0 s).interp Access.erase)
        (S.warmupLoop query data n tuples dimensionsFetchingSizes 0 s) := by
    intro tuples s hs
    change Sim _ _ (S.warmupLoop query data n tuples (dimensionsFetchingSizes.drop 0) 0 s)
    refine warmupLoopAccesses_sim ?_ (by omega)
    rw [List.drop_zero, hs, Nat.zero_add]
    exact hle.trans (hdims.trans pdxMaxDims_le_sum)
  unfold warmupAccesses warmup
  cases filter with
  | none => exact .call fun threshold => hstart rfl
  | some selection =>
    simp only
    split
    · exact .done rfl
    · exact .call fun threshold => hstart rfl

theorem pruneHorizontalAccesses_sim {n curVertical fuel fuel' b : Nat} {s : ProbeState D}
    (hfuel : S.pdxData.numHorizontalDimensions - b < fuel)
    (hfuel' : S.pdxData.numHorizontalDimensions - b ≤ fuel') :
    Sim (fun r s' => ∃ b', r = some (b', s'))
      ((S.pruneHorizontalAccesses query data n curVertical fuel b s).interp Access.erase)
      (S.pruneHorizontal query data n fuel' b s) := by
  induction fuel generalizing fuel' b s with
  | zero => omega
  | succ fuel ih =>
    unfold pruneHorizontalAccesses
    split
    · rename_i hcond
      obtain ⟨fuel', rfl⟩ : ∃ fuel'', fuel' = fuel'' + 1 := ⟨fuel' - 1, by omega⟩
      rw [pruneHorizontal, if_pos hcond, interp_bind, horizontalPass_erase, done_bind]
      refine .call fun threshold => ih ?_ ?_
      · simp only [hDimSize]
        omega
      · simp only [hDimSize]
        omega
    · rename_i hcond
      have hdone : S.pruneHorizontal query data n fuel' b s = .done s := by
        cases fuel' with
        | zero => rfl
        | succ fuel' => rw [pruneHorizontal, if_neg hcond]
      rw [hdone]
      exact .done ⟨b, rfl⟩

theorem pruneVerticalAccesses_sim {n curHorizontal fuel fuel' a : Nat} {s : ProbeState D}
    (hfuel : S.pdxData.numVerticalDimensions - a < fuel)
    (hfuel' : S.pdxData.numVerticalDimensions - a ≤ fuel') :
    Sim (fun r s' => r = some s')
      ((S.pruneVerticalAccesses query data n curHorizontal fuel a s).interp Access.erase)
      (S.pruneVertical query data n fuel' a s) := by
  induction fuel generalizing fuel' a s with
  | zero => omega
  | succ fuel ih =>
    unfold pruneVerticalAccesses
    split
    · rename_i hcond
      obtain ⟨fuel', rfl⟩ : ∃ fuel'', fuel' = fuel'' + 1 := ⟨fuel' - 1, by omega⟩
      rw [pruneVertical, if_pos hcond]
      refine .call fun threshold => ?_
      let distances := S.pdxData.quantization.vertical true query data s.nVectorsNotPruned n a
        (min (a + hDimSize) S.pdxData.numVerticalDimensions) s.pruningDistances s.pruningPositions
      let s₁ := keepBelow (min (s.currentDimensionIdx + hDimSize) S.pdxData.numDimensions) threshold
        { s with pruningDistances := distances }
      change Sim _
        (Client.interp Access.erase (if s₁.currentDimensionIdx = S.pdxData.numDimensions then
          .done (some s₁) else S.pruneVerticalAccesses query data n curHorizontal fuel
            (min (a + hDimSize) S.pdxData.numVerticalDimensions) s₁))
        (if s₁.currentDimensionIdx = S.pdxData.numDimensions then .done s₁
          else S.pruneVertical query data n fuel'
            (min (a + hDimSize) S.pdxData.numVerticalDimensions) s₁)
      split
      · exact .done rfl
      · refine ih ?_ ?_
        · simp only [hDimSize]
          omega
        · simp only [hDimSize]
          omega
    · rename_i hcond
      have hdone : S.pruneVertical query data n fuel' a s = .done s := by
        cases fuel' with
        | zero => rfl
        | succ fuel' => rw [pruneVertical, if_neg hcond]
      rw [hdone]
      exact .done rfl

theorem pruneAccesses_sim {n fuel : Nat} {filter : Option Selection} {s : ProbeState D}
    (hfuel : S.pdxData.numDimensions < fuel) :
    Sim (fun r s' => r = some s')
      ((S.pruneAccesses query data n filter fuel s).interp Access.erase)
      (S.prune query data n filter s) := by
  have hsplit := S.pdxData.vertical_add_horizontal
  refine .call fun threshold => ?_
  show Sim _ (Client.interp Access.erase (_ >>= _)) _
  rw [interp_bind]
  refine (pruneHorizontalAccesses_sim (by omega) (by omega)).bind ?_
  rintro _ s₁ ⟨b, rfl⟩
  exact pruneVerticalAccesses_sim (by omega) (by omega)

/-- Without its other accesses, the program reads the thresholds that `Searcher.probe` reads and
returns its result: no loop runs out of fuel. -/
theorem probeAccesses_sim (hdims : S.pdxData.numDimensions ≤ pdxMaxDims) {n fuel : Nat}
    {filter : Option Selection} {s : ProbeState D} (hfuel : S.pdxData.numDimensions < fuel) :
    Sim (fun r s' => r = some s')
      ((S.probeAccesses query data n filter fuel s).interp Access.erase)
      (S.probe query data n filter s) := by
  rw [probeAccesses, interp_bind]
  refine (warmupAccesses_sim hdims hfuel).bind ?_
  rintro _ s₁ rfl
  exact pruneAccesses_sim hfuel

end Searcher

end PDXearch
