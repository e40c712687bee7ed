import PDXearch.Kernel.Searcher
import PDXearch.Lib.Client
import Mathlib.Data.Rat.Floor

/-!
# Probing a cluster: Warmup and Prune

`Warmup` adds up the vertical dimensions of all vectors of a cluster until enough of them could be
pruned, `Prune` goes on with the vectors not yet pruned: the horizontal blocks, then what is left
of the vertical dimensions. In between, both read the pruning threshold, which other threads may
have lowered since the last read. They are therefore programs whose calls are the threshold reads,
`GetPruningThreshold` at a number of visited dimensions, and which have to be right for every
sequence of answers.
-/

namespace PDXearch

open Lib

/-- A program that reads pruning thresholds; the call is `current_dimension_idx`. -/
abbrev ThresholdReader (D α : Type) : Type := Client Nat (fun _ => D) α

/-- What `Warmup`, `Prune` and their callers pass by reference. The arrays are allocated once per
search and not initialised. -/
structure ProbeState (D : Type) where
  pruningPositions : Nat → Nat
  pruningDistances : Nat → D
  pruningThreshold : D
  currentDimensionIdx : Nat
  nVectorsNotPruned : Nat

namespace ProbeState

variable {D : Type}

/-- The arrays hold zeros as positions and `x` as distances. -/
def const (x : D) : ProbeState D := ⟨fun _ => 0, fun _ => x, x, 0, 0⟩

/-- The vectors not pruned yet, in the order of the positions array. -/
def notPruned (s : ProbeState D) : List Nat :=
  (List.range s.nVectorsNotPruned).map s.pruningPositions

end ProbeState

section Loops

variable {K E D : Type}

def resetPruningDistances (Q : Quantization K E D) (nVectors : Nat) (pruningDistances : Nat → D) :
    Nat → D :=
  (List.range nVectors).foldl (fun distances i => Function.update distances i Q.zero)
    pruningDistances

def maskDistancesWithSelectionVector (Q : Quantization K E D) (nVectors : Nat)
    (pruningDistances : Nat → D) (selectionVector : Nat → Bool) : Nat → D :=
  (List.range nVectors).foldl (fun distances vectorIdx =>
    Function.update distances vectorIdx
      (if selectionVector vectorIdx = false then Q.halfMax else distances vectorIdx))
    pruningDistances

variable [LinearOrder D]

def evaluatePruningPredicateScalar (nPruned nVectors : Nat) (pruningDistances : Nat → D)
    (pruningThreshold : D) : Nat :=
  (List.range nVectors).foldl (fun nPruned vectorIdx =>
    nPruned + if pruningThreshold ≤ pruningDistances vectorIdx then 1 else 0) nPruned

/-- The positions array and `n_vectors_not_pruned` after the test of the vectors not yet pruned. -/
def evaluatePruningPredicateOnPositionsArray (nVectors : Nat) (pruningPositions : Nat → Nat)
    (pruningThreshold : D) (pruningDistances : Nat → D) : (Nat → Nat) × Nat :=
  (List.range nVectors).foldl (fun (positions, nVectorsNotPruned) vectorIdx =>
    let positions := Function.update positions nVectorsNotPruned (positions vectorIdx)
    (positions, nVectorsNotPruned +
      if pruningDistances (positions vectorIdx) < pruningThreshold then 1 else 0))
    (pruningPositions, 0)

/-- `InitPositionsArray<IS_FILTERED>`, filtered when there is a selection vector. -/
def initPositionsArray (nVectors : Nat) (pruningPositions : Nat → Nat) (pruningThreshold : D)
    (pruningDistances : Nat → D) (selectionVector : Option (Nat → Bool)) : (Nat → Nat) × Nat :=
  (List.range nVectors).foldl (fun (positions, nVectorsNotPruned) vectorIdx =>
    (Function.update positions nVectorsNotPruned vectorIdx, nVectorsNotPruned +
      if pruningDistances vectorIdx < pruningThreshold ∧
        selectionVector.all (fun selection => selection vectorIdx) then 1 else 0))
    (pruningPositions, 0)

omit [LinearOrder D] in
def initPositionsArrayFromSelectionVector (nVectors : Nat) (pruningPositions : Nat → Nat)
    (selectionVector : Nat → Bool) : (Nat → Nat) × Nat :=
  (List.range nVectors).foldl (fun (positions, nVectorsNotPruned) vectorIdx =>
    (Function.update positions nVectorsNotPruned vectorIdx,
      nVectorsNotPruned + if selectionVector vectorIdx then 1 else 0))
    (pruningPositions, 0)

end Loops

namespace Searcher

variable {K E D : Type} [LinearOrder D] (S : Searcher K E D) (query data : Nat → E)

/-- The loop of `Warmup`; the list is the rest of `DIMENSIONS_FETCHING_SIZES`. -/
def warmupLoop (nVectors tuplesNeededToExit : Nat) :
    List Nat → Nat → ProbeState D → ThresholdReader D (ProbeState D)
  | [], _, s => .done s
  | size :: sizes, nTuplesToPrune, s =>
    if nTuplesToPrune < tuplesNeededToExit ∧
        s.currentDimensionIdx < S.pdxData.numVerticalDimensions then
      let lastDimensionToFetch :=
        min (s.currentDimensionIdx + size) S.pdxData.numVerticalDimensions
      let distances := S.pdxData.quantization.vertical false query data nVectors nVectors
        s.currentDimensionIdx lastDimensionToFetch s.pruningDistances s.pruningPositions
      .call lastDimensionToFetch fun threshold =>
        warmupLoop nVectors tuplesNeededToExit sizes
          (evaluatePruningPredicateScalar 0 nVectors distances threshold)
          { s with
            pruningDistances := distances
            pruningThreshold := threshold
            currentDimensionIdx := lastDimensionToFetch }
    else .done s

def warmup (nVectors : Nat) (filter : Option Selection) (s : ProbeState D) :
    ThresholdReader D (ProbeState D) :=
  let tuplesNeededToExit := ⌈S.selectivityThreshold * nVectors⌉.toNat
  let s := { s with
    currentDimensionIdx := 0
    pruningDistances := resetPruningDistances S.pdxData.quantization nVectors s.pruningDistances }
  let start (s : ProbeState D) : ThresholdReader D (ProbeState D) :=
    .call s.currentDimensionIdx fun threshold =>
      S.warmupLoop query data nVectors tuplesNeededToExit dimensionsFetchingSizes 0
        { s with pruningThreshold := threshold }
  match filter with
  | none => start s
  | some selection =>
    let selectionPercentage : Rat := selection.passingTuples / nVectors
    let s := { s with
      pruningDistances := maskDistancesWithSelectionVector S.pdxData.quantization nVectors
        s.pruningDistances selection.selectionVector }
    -- few passing tuples: straight to the horizontal blocks, without a threshold read
    if selectionPercentage < 1 - S.selectivityThreshold then .done s else start s

/-- Read the threshold and keep the vectors below it. -/
def testNotPruned (currentDimensionIdx : Nat) (s : ProbeState D) :
    ThresholdReader D (ProbeState D) :=
  .call currentDimensionIdx fun threshold =>
    let (positions, nVectorsNotPruned) := evaluatePruningPredicateOnPositionsArray
      s.nVectorsNotPruned s.pruningPositions threshold s.pruningDistances
    .done { s with
      pruningPositions := positions
      pruningThreshold := threshold
      currentDimensionIdx := currentDimensionIdx
      nVectorsNotPruned := nVectorsNotPruned }

/-- `Prune`, the loop over the horizontal blocks from `currentHorizontalDimension` on. -/
def pruneHorizontal (nVectors : Nat) :
    Nat → Nat → ProbeState D → ThresholdReader D (ProbeState D)
  | 0, _, s => .done s
  | fuel + 1, currentHorizontalDimension, s =>
    if S.pdxData.numHorizontalDimensions ≠ 0 ∧ s.nVectorsNotPruned ≠ 0 ∧
        currentHorizontalDimension < S.pdxData.numHorizontalDimensions then
      let offsetData := S.pdxData.numVerticalDimensions * nVectors +
        currentHorizontalDimension * nVectors
      let offsetQuery := S.pdxData.numVerticalDimensions + currentHorizontalDimension
      let distances := s.notPruned.foldl (fun distances vIdx =>
        let dataPos := offsetData + vIdx * hDimSize
        Function.update distances vIdx (S.pdxData.quantization.add (distances vIdx)
          (S.pdxData.quantization.horizontal (fun d => query (offsetQuery + d))
            (fun d => data (dataPos + d)) hDimSize))) s.pruningDistances
      testNotPruned (s.currentDimensionIdx + hDimSize) { s with pruningDistances := distances }
        >>= pruneHorizontal nVectors fuel (currentHorizontalDimension + hDimSize)
    else .done s

/-- `Prune`, the loop over the vertical dimensions that are left. -/
def pruneVertical (nVectors : Nat) :
    Nat → Nat → ProbeState D → ThresholdReader D (ProbeState D)
  | 0, _, s => .done s
  | fuel + 1, currentVerticalDimension, s =>
    if s.nVectorsNotPruned ≠ 0 ∧
        currentVerticalDimension < S.pdxData.numVerticalDimensions then
      let lastDimensionToTestIdx :=
        min (currentVerticalDimension + hDimSize) S.pdxData.numVerticalDimensions
      let distances := S.pdxData.quantization.vertical true query data s.nVectorsNotPruned nVectors
        currentVerticalDimension lastDimensionToTestIdx s.pruningDistances s.pruningPositions
      testNotPruned (min (s.currentDimensionIdx + hDimSize) S.pdxData.numDimensions)
          { s with pruningDistances := distances } >>= fun s =>
        if s.currentDimensionIdx = S.pdxData.numDimensions then .done s
        else pruneVertical nVectors fuel
          (min (currentVerticalDimension + hDimSize) S.pdxData.numVerticalDimensions) s
    else .done s

/-- `Prune`. The two loops run on as much fuel as there are dimensions to go through. -/
def prune (nVectors : Nat) (filter : Option Selection) (s : ProbeState D) :
    ThresholdReader D (ProbeState D) :=
  .call s.currentDimensionIdx fun threshold =>
    let (positions, nVectorsNotPruned) := initPositionsArray nVectors s.pruningPositions threshold
      s.pruningDistances (filter.map Selection.selectionVector)
    S.pruneHorizontal query data nVectors S.pdxData.numHorizontalDimensions 0
        { s with
          pruningPositions := positions
          pruningThreshold := threshold
          nVectorsNotPruned := nVectorsNotPruned } >>= fun s' =>
      S.pruneVertical query data nVectors S.pdxData.numVerticalDimensions s.currentDimensionIdx s'

/-- The calls of `Warmup` and `Prune` for one cluster. -/
def probe (nVectors : Nat) (filter : Option Selection) (s : ProbeState D) :
    ThresholdReader D (ProbeState D) :=
  S.warmup query data nVectors filter s >>= S.prune query data nVectors filter

end Searcher

end PDXearch
