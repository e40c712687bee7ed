import PDXearch.Kernel.ProbeRuns
import PDXearch.Kernel.DropRules

/-!
# The last pruning test and the heap's own test

When all dimensions of a vector have been visited, `Prune` compares its integer distance with the
threshold once more, and `MergeIntoHeap` then compares the same distance, as a float, with the
distance on top of the heap. In U8 the threshold is the top in the searched row group's scale,
truncated. So the two tests part where truncating matters: at the distance that the scaled top
exceeds by less than one.
-/

namespace PDXearch

open Lib ExactFloat PriorityQueue

/-! ## Truncation -/

section Truncate

variable {K : Type} [Field K] [LinearOrder K] [IsStrictOrderedRing K] [FloorRing K]

omit [IsStrictOrderedRing K] in
theorem lt_truncateThreshold_iff {x : K} (hx : ¬ (2 : K) ^ 32 ≤ x) (d : Nat) :
    d < Quantization.truncateThreshold (ofReal x) ↔ (d : K) + 1 ≤ x := by
  rw [Quantization.truncateThreshold_ofReal, if_neg hx, Int.lt_toNat]
  have hfloor : (d : Int) + 1 ≤ ⌊x⌋ ↔ (((d : Int) + 1 : Int) : K) ≤ x := Int.le_floor
  push_cast at hfloor
  rw [← hfloor, Int.add_one_le_iff]

/-- The truncated threshold says of a distance what the threshold does, unless the threshold lies
between this distance and the next. -/
theorem truncateThreshold_agrees_iff (x : K) {d : Nat} (hd : d < 2 ^ 32 - 1) :
    (d < Quantization.truncateThreshold (ofReal x) ↔ (d : K) < x) ↔
      ¬ ((d : K) < x ∧ x < (d : K) + 1) := by
  by_cases hx : (2 : K) ^ 32 ≤ x
  · have hcast : (d : K) + 1 ≤ (2 : K) ^ 32 := by exact_mod_cast (by omega : d + 1 ≤ 2 ^ 32)
    have hle : (d : K) + 1 ≤ x := hcast.trans hx
    have hlt : (d : K) < x := (lt_add_one _).trans_le hle
    have hkept : d < Quantization.truncateThreshold (ofReal x) := by
      rwa [Quantization.truncateThreshold_ofReal, if_pos hx]
    simp [hkept, hlt, hle]
  · rw [lt_truncateThreshold_iff hx]
    constructor
    · rintro h ⟨hlt, hnext⟩
      exact absurd (h.mpr hlt) (not_le.mpr hnext)
    · intro h
      constructor
      · exact (lt_add_one _).trans_le
      · intro hlt
        exact not_lt.mp fun hnext => h ⟨hlt, hnext⟩

end Truncate

/-! ## The two tests -/

namespace Searcher

section Tests

variable {K H : Type} [Field K] [LinearOrder K] [FloorRing K] [Heap H K]

/-- The vectors that are left after the test at the last dimension. -/
def lastTest (S : Searcher K UInt8 Nat) (heap : H) (s : ProbeState Nat) : List Nat :=
  ((testNotPruned S.pdxData.numDimensions s).eval fun idx =>
    S.getPruningThreshold (topKey heap) idx).notPruned

/-- The vectors that `InitPositionsArray` leaves when `Warmup` has visited all dimensions. -/
def firstTest (S : Searcher K UInt8 Nat) (heap : H) (nVectors : Nat) (s : ProbeState Nat) : List Nat :=
  let (positions, nVectorsNotPruned) := initPositionsArray nVectors s.pruningPositions
    (S.getPruningThreshold (topKey heap) S.pdxData.numDimensions) s.pruningDistances none
  (List.range nVectorsNotPruned).map positions

/-- The top in the scale of the searched row group lies between the distance `d` and the next. -/
def TopBetween (params : ScalarQuantizationParams K) (heap : H) (d : Nat) : Prop :=
  ∃ t, topKey heap = ofReal t ∧
    (d : K) < t * (params.quantizationScale * params.quantizationScale) ∧
    t * (params.quantizationScale * params.quantizationScale) < (d : K) + 1

variable {S : Searcher K UInt8 Nat} {maxValue : UInt8} {params : ScalarQuantizationParams K}

omit [FloorRing K] in
theorem mem_lastTest {heap : H} {s : ProbeState Nat} {i : Nat} (hi : i ∈ s.notPruned) :
    i ∈ S.lastTest heap s ↔
      s.pruningDistances i < S.getPruningThreshold (topKey heap) S.pdxData.numDimensions := by
  have hkept := evaluatePruningPredicateOnPositionsArray_kept s.nVectorsNotPruned
    s.pruningPositions (S.getPruningThreshold (topKey heap) S.pdxData.numDimensions)
    s.pruningDistances
  have hlist : S.lastTest heap s = s.notPruned.filter fun i =>
      s.pruningDistances i < S.getPruningThreshold (topKey heap) S.pdxData.numDimensions := hkept
  rw [hlist, List.mem_filter, decide_eq_true_eq]
  exact and_iff_right hi

omit [FloorRing K] in
theorem mem_firstTest {heap : H} {n : Nat} {s : ProbeState Nat} {i : Nat} (hi : i < n) :
    i ∈ S.firstTest heap n s ↔
      s.pruningDistances i < S.getPruningThreshold (topKey heap) S.pdxData.numDimensions := by
  have hkept := initPositionsArray_kept n s.pruningPositions
    (S.getPruningThreshold (topKey heap) S.pdxData.numDimensions) s.pruningDistances none
  have hlist : S.firstTest heap n s = (List.range n).filter fun i =>
      s.pruningDistances i < S.getPruningThreshold (topKey heap) S.pdxData.numDimensions ∧
        (none : Option (Nat → Bool)).all fun sel => sel i := hkept
  rw [hlist, List.mem_filter, List.mem_range]
  simp [hi]

theorem squaredDistanceU8_lt (hS : S.pdxData.quantization = Quantization.u8 maxValue params)
    (hdims : S.pdxData.numDimensions ≤ pdxMaxDims) (c i : Nat) :
    squaredDistanceU8 S c i < 2 ^ 32 - 1 := by
  have hfull := Quantization.partialSum_termU8_lt S.preparedQuery (S.pdxData.cluster c).data
    (S.pdxData.cluster c).numEmbeddings i (S.pdxData.vertical_add_horizontal.symm ▸ hdims)
    le_rfl le_rfl
  have hsum := slotDistance_u8 hS hdims c i
  exact hsum ▸ hfull.trans (by decide)

variable [IsStrictOrderedRing K]

/-- The integer test and the heap's test of one distance. -/
theorem threshold_agrees_iff (hS : S.pdxData.quantization = Quantization.u8 maxValue params)
    (hscale : 0 < params.quantizationScale)
    (hpruner : S.pruner.numDimensions = S.pdxData.numDimensions) {k : Nat} {heap : H}
    (hfull : size heap = k) (index : Nat) {d : Nat} (hd : d < 2 ^ 32 - 1) :
    (d < S.getPruningThreshold (topKey heap) S.pdxData.numDimensions ↔
      Inserts k (⟨index, S.pdxData.quantization.floatOfDistance d⟩ : KNNCandidate K) heap) ↔
      ¬ TopBetween params heap d := by
  have hinserts : Inserts k (⟨index, S.pdxData.quantization.floatOfDistance d⟩ : KNNCandidate K)
      heap ↔ ofReal ((d : K) * (1 / (params.quantizationScale * params.quantizationScale))) <
        topKey heap := by
    unfold Inserts
    rw [hfull, hS]
    exact or_iff_right (lt_irrefl k)
  have hratio : S.pruner.ratioAt S.pdxData.numDimensions = 1 := if_pos hpruner.symm
  rw [hinserts, getPruningThreshold_u8 hS, hratio, scale_one]
  unfold TopBetween
  rcases eq_ofReal_or_mark (topKey heap) with ⟨t, ht⟩ | ht | ht
  · have hsq : 0 < params.quantizationScale * params.quantizationScale := mul_pos hscale hscale
    have hdiv : (d : K) * (1 / (params.quantizationScale * params.quantizationScale)) < t ↔
        (d : K) < t * (params.quantizationScale * params.quantizationScale) := by
      rw [mul_one_div, div_lt_iff₀ hsq]
    simp only [ht, scale_ofReal, ofReal_lt, ofReal_inj, hdiv, exists_eq_left']
    exact truncateThreshold_agrees_iff _ hd
  · -- a mark: everything is kept and everything is inserted
    have hkept : d < Quantization.truncateThreshold (halfMax : ExactFloat K) := hd
    have hmark : ∀ t : K, halfMax ≠ ofReal t := fun t => (ofReal_lt_halfMax t).ne'
    simp [ht, hkept, hmark, ofReal_lt_halfMax]
  · have hkept : d < Quantization.truncateThreshold (⊤ : ExactFloat K) := hd
    have hmark : ∀ t : K, ⊤ ≠ ofReal t := fun t => (ofReal_ne_top t).symm
    simp [ht, hkept, hmark]

/-- `Prune`'s tests of a vector at its full distance agree with the one that `MergeIntoHeap` makes,
unless the scaled top lies between this distance and the next. -/
theorem finalTest_agrees_iff (S : Searcher K UInt8 Nat) (maxValue : UInt8)
    (params : ScalarQuantizationParams K)
    (hS : S.pdxData.quantization = Quantization.u8 maxValue params)
    (hscale : 0 < params.quantizationScale) (hdims : S.pdxData.numDimensions ≤ pdxMaxDims)
    (hpruner : S.pruner.numDimensions = S.pdxData.numDimensions) (k : Nat) (heap : H)
    (hfull : size heap = k) (s : ProbeState Nat) (c i : Nat)
    (hdistance : s.pruningDistances i = squaredDistanceU8 S c i) :
    (i ∈ s.notPruned →
      ((i ∈ S.lastTest heap s ↔ Inserts k (⟨(S.pdxData.cluster c).indices i,
          S.pdxData.quantization.floatOfDistance (s.pruningDistances i)⟩ : KNNCandidate K) heap) ↔
        ¬ TopBetween params heap (squaredDistanceU8 S c i))) ∧
    (i < (S.pdxData.cluster c).numEmbeddings →
      ((i ∈ S.firstTest heap (S.pdxData.cluster c).numEmbeddings s ↔
          Inserts k (⟨(S.pdxData.cluster c).indices i,
            S.pdxData.quantization.floatOfDistance (s.pruningDistances i)⟩ : KNNCandidate K) heap) ↔
        ¬ TopBetween params heap (squaredDistanceU8 S c i))) := by
  have hagrees := threshold_agrees_iff hS hscale hpruner hfull ((S.pdxData.cluster c).indices i)
    (squaredDistanceU8_lt hS hdims c i)
  constructor
  · intro hi
    rw [mem_lastTest hi, hdistance]
    exact hagrees
  · intro hi
    rw [mem_firstTest hi, hdistance]
    exact hagrees

end Tests

/-! ## A nearer vector that is pruned -/

/-- One vector, the byte `1`, at scale one; the query is the byte `0`. -/
def oneByte : Searcher Rat UInt8 Nat :=
  Searcher.new ⟨1, 0, fun _ => 1, fun _ => 1⟩
    { numDimensions := 1
      totalNumEmbeddings := 1
      numClusters := 1
      clusters := [⟨1, fun _ => 5, fun _ => 1⟩]
      isNormalized := false
      centroids := fun _ => 0
      quantization := Quantization.u8 255 ⟨0, 1⟩ }

/-- A full heap of one candidate, whose distance is `6` at scale two. -/
def heapOfOther : SortedQueue (KNNCandidate.distance (K := Rat)) :=
  push ⟨7, ofReal (3 / 2)⟩ empty

/-- The vector's distance has been added up. -/
def visitedAll : ProbeState Nat := ⟨fun _ => 0, fun _ => 1, 0, 1, 1⟩

/-- It is at distance `1`, nearer than the top at `3 / 2`, and pruned. -/
theorem finalTest_disagrees :
    visitedAll.pruningDistances 0 = squaredDistanceU8 oneByte 0 0 ∧
      0 ∈ visitedAll.notPruned ∧ 0 ∉ oneByte.lastTest heapOfOther visitedAll ∧
      Inserts 1 (⟨5, oneByte.pdxData.quantization.floatOfDistance 1⟩ : KNNCandidate Rat)
        heapOfOther := by
  refine ⟨by decide +kernel, by decide +kernel, by decide +kernel, Or.inr ?_⟩
  decide +kernel

theorem finalTest_agrees_iff_oneByte :
    (0 ∈ oneByte.lastTest heapOfOther visitedAll ↔ Inserts 1 (⟨5,
      oneByte.pdxData.quantization.floatOfDistance (visitedAll.pruningDistances 0)⟩ :
        KNNCandidate Rat) heapOfOther) ↔
      ¬ TopBetween (⟨0, 1⟩ : ScalarQuantizationParams Rat) heapOfOther
        (squaredDistanceU8 oneByte 0 0) :=
  (finalTest_agrees_iff oneByte 255 ⟨0, 1⟩ rfl (by decide) (by decide) rfl 1 heapOfOther rfl visitedAll
    0 0 (by decide +kernel)).1 (by decide +kernel)

end Searcher

end PDXearch
