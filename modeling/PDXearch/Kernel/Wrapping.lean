import PDXearch.Kernel.AccessRuns
import PDXearch.Kernel.StartRuns

/-!
# U8 distances do not wrap

A distance of a U8 index is at most the mark of a vector that is not selected, half the greatest
32-bit number, and the greatest square for each dimension added to it. For 16384 dimensions this
stays below `2 ^ 32`: neither a mark that `Warmup` goes on adding to nor any sum on the way to a
distance wraps. A sum from zero stays below the mark, so `FilteredStart` finds the selected vectors
before the others.

`Start` and `FilteredStart` are written out with their calls of the distance computers, as
`Searcher.probeAccesses` writes out a probe.
-/

namespace PDXearch

open Lib Client PriorityQueue

/-! ## The accesses of a full scan -/

namespace Searcher

section Programs

variable {K E D : Type} (S : Searcher K E D) (query data : Nat → E)

/-- The loop over the horizontal blocks, for the given vectors. -/
def horizontalBlocksAccesses (nVectors : Nat) (vectors : List Nat) :
    List Nat → (Nat → D) → AccessProgram D (Nat → D)
  | [], distances => .done distances
  | horizontalDimension :: blocks, distances =>
    S.horizontalPass query data (S.pdxData.numVerticalDimensions + horizontalDimension)
      (S.pdxData.numVerticalDimensions * nVectors + horizontalDimension * nVectors) vectors
      distances >>= horizontalBlocksAccesses nVectors vectors blocks

/-- `Start` up to the sort; returns the distances array. -/
def startAccesses (nVectors : Nat) (s : ProbeState D) : AccessProgram D (Nat → D) :=
  let distances := resetPruningDistances S.pdxData.quantization nVectors s.pruningDistances
  .call (.vertical false nVectors 0 S.pdxData.numVerticalDimensions distances s.pruningPositions)
    fun _ =>
      let distances := S.pdxData.quantization.vertical false query data nVectors nVectors 0
        S.pdxData.numVerticalDimensions distances s.pruningPositions
      S.horizontalBlocksAccesses query data nVectors (List.range nVectors)
        (forRange S.pdxData.numHorizontalDimensions hDimSize) distances

/-- `FilteredStart` up to the sort; returns the distances array. -/
def filteredStartAccesses (nVectors : Nat) (selection : Selection) (s : ProbeState D) :
    AccessProgram D (Nat → D) :=
  let distances := resetPruningDistances S.pdxData.quantization nVectors s.pruningDistances
  let selectionPercentage : Rat := selection.passingTuples / nVectors
  let (positions, nVectorsNotPruned) := initPositionsArrayFromSelectionVector nVectors
    s.pruningPositions selection.selectionVector
  S.horizontalBlocksAccesses query data nVectors ((List.range nVectorsNotPruned).map positions)
      (forRange S.pdxData.numHorizontalDimensions hDimSize) distances >>= fun distances =>
    if 1 - S.selectivityThreshold < selectionPercentage then
      .call (.vertical false nVectors 0 S.pdxData.numVerticalDimensions distances positions)
        fun _ =>
        .done (maskDistancesWithSelectionVector S.pdxData.quantization nVectors
          (S.pdxData.quantization.vertical false query data nVectors nVectors 0
            S.pdxData.numVerticalDimensions distances positions) selection.selectionVector)
    else
      .call (.vertical true nVectorsNotPruned 0 S.pdxData.numVerticalDimensions distances positions)
        fun _ =>
        .done (maskDistancesWithSelectionVector S.pdxData.quantization nVectors
          (S.pdxData.quantization.vertical true query data nVectorsNotPruned nVectors 0
            S.pdxData.numVerticalDimensions distances positions) selection.selectionVector)

theorem horizontalBlocksAccesses_erase (n : Nat) (vectors blocks : List Nat)
    (distances : Nat → D) :
    (S.horizontalBlocksAccesses query data n vectors blocks distances).interp Access.erase =
      .done (blocks.foldl (fun distances horizontalDimension =>
        vectors.foldl (fun distances vIdx =>
          Function.update distances vIdx (S.pdxData.quantization.add (distances vIdx)
            (S.pdxData.quantization.horizontal
              (fun d => query (S.pdxData.numVerticalDimensions + horizontalDimension + d))
              (fun d => data (S.pdxData.numVerticalDimensions * n + horizontalDimension * n +
                vIdx * hDimSize + d)) hDimSize))) distances) distances) := by
  induction blocks generalizing distances with
  | nil => rfl
  | cons b blocks ih =>
    rw [horizontalBlocksAccesses, interp_bind, horizontalPass_erase, done_bind, ih]
    rfl

variable [LinearOrder K] [LinearOrder D] {H : Type} [Heap H K]

theorem startAccesses_erase (std : StdSort) (n k : Nat) (vectorIndices : Nat → Nat)
    (s : ProbeState D) (heap : H) :
    (S.startAccesses query data n s).interp Access.erase =
      .done (S.start query data std n k vectorIndices s heap).2.pruningDistances :=
  horizontalBlocksAccesses_erase S query data n _ _ _

theorem filteredStartAccesses_erase (std : StdSort) (n k : Nat) (vectorIndices : Nat → Nat)
    (selection : Selection) (s : ProbeState D) (heap : H) :
    (S.filteredStartAccesses query data n selection s).interp Access.erase =
      .done (S.filteredStart query data std n k vectorIndices selection s
        heap).2.pruningDistances := by
  rw [filteredStartAccesses, filteredStart]
  simp only
  rw [interp_bind, horizontalBlocksAccesses_erase, done_bind]
  split_ifs
  · rfl
  · rfl

end Programs

section Runs

variable {K E D : Type} {S : Searcher K E D} {query data : Nat → E} {n v h : Nat}
  {P : Nat → D → Prop}

/-- The horizontal blocks from the `t`-th on, added to distances that `c` and `t` blocks of
dimensions were added to. -/
theorem horizontalBlocksAccesses_ok (hd : HasDims S v h)
    (hp : Bounded S.pdxData.quantization query data n P) {vectors : List Nat}
    (hnd : vectors.Nodup) (hlt : ∀ i ∈ vectors, i < n) {c t m : Nat} (hc : c ≤ v)
    (hm : hDimSize * (t + m) ≤ h) {distances : Nat → D}
    (hdist : ∀ i < n, P (c + hDimSize * t) (distances i))
    {tr : List (Event (Access D) Access.Answer)} {distances' : Nat → D}
    (hrun : (S.horizontalBlocksAccesses query data n vectors
      ((List.range' t m).map (hDimSize * ·)) distances).Runs tr distances') :
    (∀ e ∈ tr, e.1.Ok v h n P) ∧ ∀ i < n, P (c + hDimSize * (t + m)) (distances' i) := by
  induction m generalizing t distances tr with
  | zero =>
    obtain ⟨rfl, rfl⟩ := runs_done_iff.mp hrun
    exact ⟨by simp, hdist⟩
  | succ m ih =>
    simp only [hDimSize] at hm
    rw [List.range'_succ, List.map_cons, horizontalBlocksAccesses, hd.vertical] at hrun
    obtain ⟨distances₁, tr₁, tr₂, rfl, hpass, hrest⟩ := runs_bind_iff.mp hrun
    obtain ⟨hok₁, hdist₁⟩ := horizontalPass_ok (v := v) (h := h) hp (Nat.dvd_mul_right hDimSize t)
      (by simp only [hDimSize]; omega) (c := c + hDimSize * t) (by simp only [hDimSize]; omega) hnd
      hlt (fun i hi => hdist i (hlt i hi))
      (fun i hi => hp.mono (Nat.le_add_right _ _) (hdist i hi)) hpass
    rw [Nat.add_assoc, ← Nat.mul_succ] at hdist₁
    obtain ⟨hok₂, hdist₂⟩ := ih (by simp only [hDimSize]; omega) hdist₁ hrest
    refine ⟨List.forall_mem_append.mpr ⟨hok₁, hok₂⟩, ?_⟩
    rwa [Nat.succ_add_eq_add_succ] at hdist₂

/-- The blocks of a full scan. -/
theorem forRangeBlocks (hd : HasDims S v h) :
    forRange S.pdxData.numHorizontalDimensions hDimSize =
        (List.range' 0 (h / hDimSize)).map (hDimSize * ·) ∧
      hDimSize * (0 + h / hDimSize) = h := by
  rw [hd.horizontal, forRange_of_dvd hd.dvd (by decide), List.range_eq_range', Nat.zero_add]
  exact ⟨rfl, Nat.mul_div_cancel' hd.dvd⟩

/-- The range of all vertical dimensions. -/
theorem aligned_all (v : Nat) : Aligned v 0 v :=
  ⟨dvd_zero 4, Nat.zero_le v, le_rfl, Or.inr rfl⟩

theorem startAccesses_ok (hd : HasDims S v h)
    (hp : Bounded S.pdxData.quantization query data n P) {s : ProbeState D}
    {tr : List (Event (Access D) Access.Answer)} {distances : Nat → D}
    (hrun : (S.startAccesses query data n s).Runs tr distances) : ∀ e ∈ tr, e.1.Ok v h n P := by
  obtain ⟨hblocks, hall⟩ := forRangeBlocks hd
  have hreset := hp.reset s.pruningDistances
  obtain ⟨hnd, hlt⟩ := visited_all s.pruningPositions n
  rw [startAccesses, hd.vertical, hblocks] at hrun
  obtain ⟨_, tr', rfl, hrest⟩ := runs_call_iff.mp hrun
  have hvertical := hp.vertical (b := v) hnd (Nat.zero_le v) hreset
  rw [Nat.zero_add, Nat.sub_zero] at hvertical
  obtain ⟨hok, -⟩ := horizontalBlocksAccesses_ok hd hp List.nodup_range
    (fun i hi => List.mem_range.mp hi) le_rfl hall.le hvertical hrest
  exact List.forall_mem_cons.mpr ⟨⟨aligned_all v, hnd, hlt, 0, by omega, hreset⟩, hok⟩

theorem filteredStartAccesses_ok (hd : HasDims S v h)
    (hp : Bounded S.pdxData.quantization query data n P) {selection : Selection}
    {s : ProbeState D} {tr : List (Event (Access D) Access.Answer)} {distances : Nat → D}
    (hrun : (S.filteredStartAccesses query data n selection s).Runs tr distances) :
    ∀ e ∈ tr, e.1.Ok v h n P := by
  obtain ⟨hblocks, hall⟩ := forRangeBlocks hd
  have hreset := hp.reset s.pruningDistances
  have hkept := initPositionsArrayFromSelectionVector_kept n s.pruningPositions
    selection.selectionVector
  rw [filteredStartAccesses, hd.vertical, hblocks] at hrun
  simp only at hrun
  generalize initPositionsArrayFromSelectionVector n s.pruningPositions
    selection.selectionVector = kept at hkept hrun
  have hnd : ((List.range kept.2).map kept.1).Nodup := by
    rw [hkept]
    exact List.nodup_range.filter _
  have hlt : ∀ i ∈ (List.range kept.2).map kept.1, i < n := by
    rw [hkept]
    exact fun i hi => List.mem_range.mp (List.mem_filter.mp hi).1
  obtain ⟨distances₁, tr₁, tr₂, rfl, hhorizontal, hrest⟩ := runs_bind_iff.mp hrun
  obtain ⟨hok, hdist⟩ := horizontalBlocksAccesses_ok hd hp hnd hlt (Nat.zero_le v) hall.le hreset
    hhorizontal
  rw [hall, Nat.zero_add] at hdist
  refine List.forall_mem_append.mpr ⟨hok, ?_⟩
  split at hrest
  · obtain ⟨_, tr₃, rfl, hdone⟩ := runs_call_iff.mp hrest
    obtain ⟨rfl, -⟩ := runs_done_iff.mp hdone
    obtain ⟨hndAll, hltAll⟩ := visited_all kept.1 n
    exact List.forall_mem_singleton.mpr ⟨aligned_all v, hndAll, hltAll, h, by omega, hdist⟩
  · obtain ⟨_, tr₃, rfl, hdone⟩ := runs_call_iff.mp hrest
    obtain ⟨rfl, -⟩ := runs_done_iff.mp hdone
    refine List.forall_mem_singleton.mpr ⟨aligned_all v, ?_, ?_, h, by omega, hdist⟩
    · rw [visited_true]
      exact hnd
    · rw [visited_true]
      exact hlt

end Runs

end Searcher

/-! ## The margin -/

/-- What a distance can be after `c` dimensions: at most the mark and their greatest squares. -/
def MarkBounded (c distance : Nat) : Prop := distance ≤ (2 ^ 32 - 1) / 2 + 65025 * c

/-- Nothing wraps in an access of the U8 computer. -/
def Access.NoWrap (query data : Nat → UInt8) (n : Nat) : Access Nat → Prop
  | .vertical skipPruned nVectors startDimension endDimension distances positions =>
    PDXearch.NoWrap query data (verticalU8Accumulations (visited skipPruned positions nVectors) n
      startDimension endDimension) distances
  | .horizontal offsetQuery dataPos distance =>
    PDXearch.NoWrap (fun d => query (offsetQuery + d)) (fun d => data (dataPos + d))
        (horizontalU8Accumulations hDimSize) (fun _ => 0) ∧
      distance + horizontalU8 (fun d => query (offsetQuery + d)) (fun d => data (dataPos + d))
        hDimSize < 2 ^ 32
  | _ => True

theorem readCount_horizontalU8 (numDimensions : Nat) :
    readCount (horizontalU8Accumulations numDimensions) 0 = numDimensions :=
  (readCount_row (fun i => (i, i)) 0 numDimensions 0).trans (if_pos rfl)

theorem horizontalU8_le (vector1 vector2 : Nat → UInt8) (numDimensions : Nat) :
    horizontalU8 vector1 vector2 numDimensions ≤ 65025 * numDimensions := by
  have hle := accumulate_le vector1 vector2 (horizontalU8Accumulations numDimensions)
    (fun _ => 0) 0
  rwa [readCount_horizontalU8, ← horizontalU8_eq_accumulate, Nat.zero_add] at hle

theorem u8_bounded {K : Type} [Field K] [LinearOrder K] [FloorRing K] (maxValue : UInt8)
    (params : ScalarQuantizationParams K) (query data : Nat → UInt8) (n : Nat) :
    Bounded (Quantization.u8 maxValue params) query data n MarkBounded where
  zero := Nat.zero_le _
  halfMax := Nat.le_refl _
  mono hle hx := hx.trans (Nat.add_le_add_left (Nat.mul_le_mul_left 65025 hle) _)
  vertical {skip m a b c distances positions} hnd hab hdist i hi := by
    have hle := accumulate_le query data
      (verticalU8Accumulations (visited skip positions m) n a b) distances i
    have hcount := readCount_verticalU8 hnd n a b i
    have hold : distances i ≤ (2 ^ 32 - 1) / 2 + 65025 * c := hdist i hi
    rw [← verticalU8_eq_accumulate] at hle
    change verticalU8 skip query data m n a b distances positions i ≤ _
    omega
  horizontal {c x} vector1 vector2 hx := by
    have hle := horizontalU8_le vector1 vector2 hDimSize
    have hmod := Nat.mod_le (x + horizontalU8 vector1 vector2 hDimSize) (2 ^ 32)
    change x ≤ _ at hx
    change (x + horizontalU8 vector1 vector2 hDimSize) % 2 ^ 32 ≤ _
    omega

/-- Where a probe or a full scan accesses, nothing wraps. -/
theorem Access.Ok.noWrap {v h n : Nat} (hdims : v + h ≤ pdxMaxDims) (query data : Nat → UInt8)
    {access : Access Nat} (hok : access.Ok v h n MarkBounded) : access.NoWrap query data n := by
  rw [pdxMaxDims] at hdims
  cases access with
  | threshold currentDimensionIdx => trivial
  | fetchingSize curSubgroupingSizeIdx => trivial
  | vertical skip m a b distances positions =>
    obtain ⟨-, hnd, hlt, c, hc, hdist⟩ := hok
    refine noWrap_of_count (fun acc hacc => (mem_verticalU8Accumulations hacc).2) fun acc hacc => ?_
    have hcount := readCount_verticalU8 hnd n a b acc.vectorIdx
    have hold : distances acc.vectorIdx ≤ (2 ^ 32 - 1) / 2 + 65025 * c :=
      hdist _ (hlt _ (mem_verticalU8Accumulations hacc).1)
    omega
  | horizontal offsetQuery dataPos distance =>
    obtain ⟨-, -, -, -, -, -, -, c, hc, hold⟩ := hok
    change distance ≤ (2 ^ 32 - 1) / 2 + 65025 * c at hold
    refine ⟨noWrap_of_count (fun acc hacc => ?_) fun acc hacc => ?_, ?_⟩
    · obtain ⟨i, -, rfl⟩ := List.mem_map.mp hacc
      exact Nat.le_of_lt (by simp)
    · obtain ⟨i, -, rfl⟩ := List.mem_map.mp hacc
      rw [readCount_horizontalU8]
      decide
    · have hle := horizontalU8_le (fun d => query (offsetQuery + d)) (fun d => data (dataPos + d))
        hDimSize
      simp only [hDimSize] at hle hc ⊢
      omega
  | assertion holds => trivial

/-- In a U8 index of at most 16384 dimensions no addition to a distance wraps and no `int`
overflows, whatever the query, the stored bytes, the selection and the thresholds: not in `Warmup`
and `Prune`, marked entries included, nor in `Start` and `FilteredStart`. `FilteredStart` compares
the selected vectors as nearer than all others, and inserts only selected ones if the passing
tuples are as many as they are. -/
theorem u8Distances_noWrap {K H : Type} [Field K] [LinearOrder K] [FloorRing K] [Heap H K]
    (S : Searcher K UInt8 Nat) (maxValue : UInt8) (params : ScalarQuantizationParams K)
    (hq : S.pdxData.quantization = Quantization.u8 maxValue params)
    (hdims : S.pdxData.numDimensions ≤ pdxMaxDims) (query data : Nat → UInt8) (n : Nat)
    (s : ProbeState Nat) :
    (∀ (filter : Option Selection) (fuel : Nat), S.pdxData.numDimensions < fuel →
      ∀ tr r, (S.probeAccesses query data n filter fuel s).Runs tr r →
        ∀ e ∈ tr, e.1.NoWrap query data n) ∧
    (∀ tr r, (S.startAccesses query data n s).Runs tr r → ∀ e ∈ tr, e.1.NoWrap query data n) ∧
    ∀ selection : Selection,
      (∀ tr r, (S.filteredStartAccesses query data n selection s).Runs tr r →
        ∀ e ∈ tr, e.1.NoWrap query data n) ∧
      ∀ (std : StdSort) (k : Nat) (vectorIndices : Nat → Nat) (heap : H),
        let result := S.filteredStart query data std n k vectorIndices selection s heap
        (∀ i < n, selection.selectionVector i → ∀ j < n, ¬ selection.selectionVector j →
          result.2.pruningDistances i < result.2.pruningDistances j) ∧
        ∃ inserted : List Nat,
          elems result.1 = (inserted.map fun i => (⟨vectorIndices i,
            S.pdxData.quantization.floatOfDistance (result.2.pruningDistances i)⟩ :
              KNNCandidate K) : List (KNNCandidate K)) + elems heap ∧
          (selection.passingTuples = (Searcher.selectedBy selection n).length →
            ∀ i ∈ inserted, i < n ∧ selection.selectionVector i) := by
  have hd := S.hasDims
  have htotal := hd.total
  have hdims' := htotal ▸ hdims
  have hp : Bounded S.pdxData.quantization query data n MarkBounded :=
    hq ▸ u8_bounded maxValue params query data n
  have hm : Measures S.pdxData.quantization query data S.pdxData.numVerticalDimensions
      S.pdxData.numHorizontalDimensions n
      (termU8 query S.pdxData.numVerticalDimensions n data) id :=
    hq ▸ Quantization.u8_measures maxValue params query data n hdims'
  have hmark : ∀ i < n, fullSum (termU8 query S.pdxData.numVerticalDimensions n data)
      S.pdxData.numVerticalDimensions S.pdxData.numHorizontalDimensions i <
      S.pdxData.quantization.halfMax := by
    intro i _
    rw [hq]
    exact Quantization.partialSum_termU8_lt query data n i hdims' le_rfl le_rfl
  refine ⟨fun filter fuel hfuel tr r hrun e he => ?_, fun tr r hrun e he => ?_, fun selection =>
    ⟨fun tr r hrun e he => ?_, fun std k vectorIndices heap => ?_⟩⟩
  · exact ((Searcher.probeAccesses_ok hd hdims' hp (htotal ▸ hfuel) hrun).1 e he).noWrap hdims'
      query data
  · exact (Searcher.startAccesses_ok hd hp hrun e he).noWrap hdims' query data
  · exact (Searcher.filteredStartAccesses_ok hd hp hrun e he).noWrap hdims' query data
  · have hdist := fun i (hi : i < n) => Searcher.filteredStart_distances hd hm std k vectorIndices
      selection s heap hi
    obtain ⟨inserted, -, hlt, helems, hselected⟩ := Searcher.filteredStart_inserts hd hm hmark std k
      vectorIndices selection s heap
    refine ⟨fun i hi hsel j hj hnot => ?_, inserted, ?_, fun hcount i hi =>
      ⟨hlt i hi, (hselected hcount.le).1 i hi⟩⟩
    · rw [hdist i hi, hdist j hj, if_pos hsel, if_neg hnot]
      exact hmark i hi
    · refine helems.trans (congrArg₂ (· + ·) (congrArg _ (List.map_congr_left fun i hi => ?_)) rfl)
      rw [hdist i (hlt i hi)]

/-- Three vectors of zeros, of which the first is selected, probed and scanned with a query of
the greatest bytes. -/
theorem u8Distances_noWrap_sixVertical :
    sixVertical.pdxData.numDimensions ≤ pdxMaxDims ∧
      (∀ tr r, (sixVertical.probeAccesses (fun _ => 255) (fun _ => 0) 3
          (some ⟨fun i => i == 0, 3⟩) 135 (.const 0)).Runs tr r →
        ∀ e ∈ tr, e.1.NoWrap (fun _ => 255) (fun _ => 0) 3) ∧
      ∀ tr r, (sixVertical.filteredStartAccesses (fun _ => 255) (fun _ => 0) 3
          ⟨fun i => i == 0, 1⟩ (.const 0)).Runs tr r →
        ∀ e ∈ tr, e.1.NoWrap (fun _ => 255) (fun _ => 0) 3 := by
  have hall := u8Distances_noWrap (H := SortedQueue (KNNCandidate.distance (K := Rat))) sixVertical
    255 ⟨0, 1⟩ rfl (by decide) (fun _ => 255) (fun _ => 0) 3 (.const 0)
  exact ⟨by decide, hall.1 (some ⟨fun i => i == 0, 3⟩) 135 (by decide),
    (hall.2.2 ⟨fun i => i == 0, 1⟩).1⟩

end PDXearch
