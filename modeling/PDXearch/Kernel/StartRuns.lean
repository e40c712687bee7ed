import PDXearch.Kernel.GlobalSearch
import PDXearch.Kernel.ProbeRuns

/-!
# What a full scan computes

`Start` and `FilteredStart` go through all dimensions of the vectors that they may insert: `Start`
through the vertical ones first, `FilteredStart` through the horizontal ones first and then through
the vertical ones of all vectors or of the selected ones only.
-/

namespace PDXearch

open Lib PriorityQueue

namespace Searcher

variable {K E D M : Type} [AddCommMonoid M] {S : Searcher K E D} {query data : Nat → E} {n : Nat}
  {term : Nat → Nat → M} {embed : M → D} {v h : Nat}

theorem addHorizontalBlocks_apply (hd : HasDims S v h)
    (hm : Measures S.pdxData.quantization query data v h n term embed) {L : List Nat}
    (hnd : L.Nodup) {a : Nat} (ha : a ≤ v) {distances : Nat → D}
    (hL : ∀ i ∈ L, distances i = embed (partialSum term v i a 0)) :
    ∀ i ∈ L, S.addHorizontalBlocks query data n L distances i = embed (partialSum term v i a h) := by
  have hblocks : hDimSize * (h / hDimSize) = h := Nat.mul_div_cancel' hd.dvd
  rw [addHorizontalBlocks, hd.horizontal, hd.vertical, forRange_of_dvd hd.dvd (by decide),
    List.foldl_map]
  have hloop := foldl_range_induction (n := h / hDimSize) (s := distances)
    (P := fun (t : Nat) (r : Nat → D) =>
      ∀ i ∈ L, r i = embed (partialSum term v i a (hDimSize * t)))
    (f := fun r t => L.foldl (fun distances vIdx => Function.update distances vIdx
      (S.pdxData.quantization.add (distances vIdx) (S.pdxData.quantization.horizontal
        (fun d => query (v + hDimSize * t + d))
        (fun d => data (v * n + hDimSize * t * n + vIdx * hDimSize + d)) hDimSize))) r)
    hL ?_
  · rwa [hblocks] at hloop
  · intro t r ht hr i hi
    have hle : hDimSize * t + hDimSize ≤ h := by
      have := Nat.mul_le_mul_left hDimSize (Nat.succ_le_of_lt ht)
      rw [hblocks] at this
      exact this
    have hupdate := foldl_update_nodup hnd (fun vIdx x => S.pdxData.quantization.add x
      (S.pdxData.quantization.horizontal (fun d => query (v + hDimSize * t + d))
        (fun d => data (v * n + hDimSize * t * n + vIdx * hDimSize + d)) hDimSize)) r i
    refine hupdate.trans ?_
    rw [if_pos hi, hr i hi]
    exact hm.horizontal ha (dvd_mul_right _ _) hle

variable [LinearOrder K] [LinearOrder D] {H : Type} [Heap H K]

/-- The candidates that `insertNearest` adds to the heap. -/
theorem elems_insertNearest (S : Searcher K E D) (std : StdSort) (n m : Nat)
    (vectorIndices : Nat → Nat) (distances : Nat → D) (heap : H) :
    elems (S.insertNearest std n m vectorIndices distances heap) =
      (((std.partialSort distances m (List.range n)).take m).map (fun i =>
        (⟨vectorIndices i, S.pdxData.quantization.floatOfDistance (distances i)⟩ :
          KNNCandidate K)) : List (KNNCandidate K)) + elems heap :=
  elems_foldl_push _ _ _

omit [LinearOrder K] in
/-- What is selected from the slots of a cluster are slots of the cluster. -/
theorem lt_of_mem_take (std : StdSort) {distances : Nat → D} {n m i : Nat}
    (hi : i ∈ (std.partialSort distances m (List.range n)).take m) : i < n :=
  List.mem_range.mp ((std.partialSort_perm distances m (List.range n)).mem_iff.mp
    (List.mem_of_mem_take hi))

theorem elems_insertNearest_of_eq (S : Searcher K E D) (std : StdSort) {n : Nat} (m : Nat)
    (vectorIndices : Nat → Nat) {distances key : Nat → D} (hkey : ∀ i < n, distances i = key i)
    (heap : H) :
    elems (S.insertNearest std n m vectorIndices distances heap) =
      (((std.partialSort distances m (List.range n)).take m).map (fun i =>
        (⟨vectorIndices i, S.pdxData.quantization.floatOfDistance (key i)⟩ :
          KNNCandidate K)) : List (KNNCandidate K)) + elems heap := by
  rw [elems_insertNearest]
  congr 2
  refine List.map_congr_left fun i hi => ?_
  rw [hkey i (lt_of_mem_take std hi)]

omit [LinearOrder K] in
/-- If the slots that pass a test are nearer than the others and `m` of them pass, then the `m` nearest
slots are the `m` nearest of those that pass. -/
theorem take_partialSort_filter (std : StdSort) {distances key : Nat → D} {P : Nat → Bool} {n m : Nat}
    (hkey : ∀ i < n, P i → distances i = key i)
    (hlow : ∀ i < n, P i → ∀ j < n, ¬ P j → distances i < distances j)
    (hm : m ≤ ((List.range n).filter P).length) :
    (∀ i ∈ (std.partialSort distances m (List.range n)).take m, P i) ∧
      IsKSmallest key m ((List.range n).filter P : Multiset Nat)
        ((std.partialSort distances m (List.range n)).take m : List Nat) := by
  have hperm := std.partialSort_perm distances m (List.range n)
  have hsorted := std.partialSort_sorted distances m (List.range n)
  have hlt : ∀ i ∈ std.partialSort distances m (List.range n), i < n := fun i hi =>
    List.mem_range.mp (hperm.mem_iff.mp hi)
  have hfilter : ((std.partialSort distances m (List.range n)).filter P).Perm
      ((List.range n).filter P) := hperm.filter _
  have hnear : ∀ i ∈ std.partialSort distances m (List.range n), P i = true →
      ∀ j ∈ std.partialSort distances m (List.range n), ¬ P j = true → distances i < distances j :=
    fun i hi hPi j hj hPj => hlow i (hlt i hi) hPi j (hlt j hj) hPj
  rw [← hfilter.length_eq] at hm
  have hkeep := hsorted.isKSmallest_filter (P := fun i => P i = true) hnear (by simpa using hm)
  refine ⟨hsorted.of_mem_take (P := fun i => P i = true) hnear (by simpa using hm), ?_⟩
  simp only [Bool.decide_eq_true] at hkeep
  rw [Multiset.coe_eq_coe.mpr hfilter] at hkeep
  refine hkeep.congr_key fun i hi j hj hle => ?_
  have hi' := List.mem_filter.mp (Multiset.mem_coe.mp hi)
  have hj' := List.mem_filter.mp (Multiset.mem_coe.mp hj)
  rwa [hkey i (List.mem_range.mp hi'.1) hi'.2, hkey j (List.mem_range.mp hj'.1) hj'.2] at hle

/-- The distances from which `Start` selects. -/
theorem start_distances (hd : HasDims S v h)
    (hm : Measures S.pdxData.quantization query data v h n term embed) (std : StdSort) (k : Nat)
    (vectorIndices : Nat → Nat) (s : ProbeState D) (heap : H) {i : Nat} (hi : i < n) :
    (S.start query data std n k vectorIndices s heap).2.pruningDistances i =
      embed (fullSum term v h i) := by
  have hall : visited false s.pruningPositions n = List.range n := visited_false _ _
  refine addHorizontalBlocks_apply hd hm List.nodup_range le_rfl (fun i hi => ?_) i
    (List.mem_range.mpr hi)
  rw [hd.vertical]
  refine hm.vertical ⟨dvd_zero 4, Nat.zero_le v, le_rfl, Or.inr rfl⟩ (Nat.zero_le h)
    (hall ▸ List.nodup_range) i (hall ▸ hi) ?_
  rw [resetPruningDistances_apply, if_pos (List.mem_range.mp hi), hm.zero]
  simp [partialSum]

/-- The distances from which `FilteredStart` selects. -/
theorem filteredStart_distances (hd : HasDims S v h)
    (hm : Measures S.pdxData.quantization query data v h n term embed) (std : StdSort) (k : Nat)
    (vectorIndices : Nat → Nat) (selection : Selection) (s : ProbeState D) (heap : H) {i : Nat}
    (hi : i < n) :
    (S.filteredStart query data std n k vectorIndices selection s heap).2.pruningDistances i =
      if selection.selectionVector i then embed (fullSum term v h i)
      else S.pdxData.quantization.halfMax := by
  set kept := initPositionsArrayFromSelectionVector n s.pruningPositions selection.selectionVector
    with hkept
  have hdist : (S.filteredStart query data std n k vectorIndices selection s
      heap).2.pruningDistances = maskDistancesWithSelectionVector S.pdxData.quantization n
      (if 1 - S.selectivityThreshold < (selection.passingTuples : Rat) / n then
        S.pdxData.quantization.vertical false query data n n 0 S.pdxData.numVerticalDimensions
          (S.addHorizontalBlocks query data n ((List.range kept.2).map kept.1)
            (resetPruningDistances S.pdxData.quantization n s.pruningDistances)) kept.1
      else
        S.pdxData.quantization.vertical true query data kept.2 n 0 S.pdxData.numVerticalDimensions
          (S.addHorizontalBlocks query data n ((List.range kept.2).map kept.1)
            (resetPruningDistances S.pdxData.quantization n s.pruningDistances)) kept.1)
      selection.selectionVector := rfl
  rw [hdist, maskDistancesWithSelectionVector_apply, if_pos hi]
  by_cases hsel : selection.selectionVector i
  · rw [if_neg (by simp [hsel]), if_pos hsel]
    have hL : (List.range kept.2).map kept.1 = (List.range n).filter selection.selectionVector :=
      initPositionsArrayFromSelectionVector_kept n s.pruningPositions selection.selectionVector
    have hmem : i ∈ (List.range n).filter selection.selectionVector :=
      List.mem_filter.mpr ⟨List.mem_range.mpr hi, hsel⟩
    have hnodup : ((List.range n).filter selection.selectionVector).Nodup :=
      List.nodup_range.filter _
    have halign : Aligned v 0 v := ⟨dvd_zero 4, Nat.zero_le v, le_rfl, Or.inr rfl⟩
    have hhorizontal : ∀ i ∈ (List.range n).filter selection.selectionVector,
        S.addHorizontalBlocks query data n ((List.range n).filter selection.selectionVector)
          (resetPruningDistances S.pdxData.quantization n s.pruningDistances) i =
        embed (partialSum term v i 0 h) := by
      refine addHorizontalBlocks_apply hd hm hnodup (Nat.zero_le v) fun i hi => ?_
      rw [resetPruningDistances_apply,
        if_pos (List.mem_range.mp (List.mem_filter.mp hi).1), hm.zero]
      simp [partialSum]
    rw [hL, hd.vertical]
    split
    · have hall := visited_false kept.1 n
      exact hm.vertical halign le_rfl (hall ▸ List.nodup_range) i
        (hall ▸ List.mem_range.mpr hi) (hhorizontal i hmem)
    · have hpositions := visited_true kept.1 kept.2
      rw [hL] at hpositions
      exact hm.vertical halign le_rfl (hpositions ▸ hnodup) i (hpositions ▸ hmem)
        (hhorizontal i hmem)
  · rw [if_pos (by simpa using hsel), if_neg hsel]

/-- The slots that a selection selects. -/
def selectedBy (selection : Selection) (n : Nat) : List Nat :=
  (List.range n).filter fun i => selection.selectionVector i

/-- `Start` inserts as many of the nearest vectors as the heap has room for, at full distance. -/
theorem start_inserts (hd : HasDims S v h)
    (hm : Measures S.pdxData.quantization query data v h n term embed) (std : StdSort) (k : Nat)
    (vectorIndices : Nat → Nat) (s : ProbeState D) (heap : H) :
    ∃ inserted : List Nat,
      IsKSmallest (fun i => embed (fullSum term v h i)) (k - size heap)
        (List.range n : Multiset Nat) inserted ∧
      elems (S.start query data std n k vectorIndices s heap).1 =
        (inserted.map fun i => (⟨vectorIndices i, S.pdxData.quantization.floatOfDistance
          (embed (fullSum term v h i))⟩ : KNNCandidate K) : List (KNNCandidate K)) + elems heap := by
  set distances := (S.start query data std n k vectorIndices s heap).2.pruningDistances
  have hdist : ∀ i < n, distances i = embed (fullSum term v h i) := fun i hi =>
    start_distances hd hm std k vectorIndices s heap hi
  have hperm := std.partialSort_perm distances (min (k - size heap) n) (List.range n)
  have hkeep := (std.partialSort_sorted distances (min (k - size heap) n)
    (List.range n)).isKSmallest
  rw [Multiset.coe_eq_coe.mpr hperm] at hkeep
  refine ⟨(std.partialSort distances (min (k - size heap) n) (List.range n)).take
    (min (k - size heap) n), .of_min ?_, ?_⟩
  · rw [Multiset.coe_card, List.length_range]
    refine hkeep.congr_key fun i hi j hj hle => ?_
    have hi' : i < n := by simpa using hi
    have hj' : j < n := by simpa using hj
    rwa [hdist i hi', hdist j hj'] at hle
  · exact elems_insertNearest_of_eq S std _ vectorIndices hdist heap

/-- `FilteredStart` inserts vectors of the cluster. If the passing tuples are not more than the
vectors selected, it inserts the nearest of these, at full distance. -/
theorem filteredStart_inserts (hd : HasDims S v h)
    (hm : Measures S.pdxData.quantization query data v h n term embed)
    (hmark : ∀ i < n, embed (fullSum term v h i) < S.pdxData.quantization.halfMax) (std : StdSort)
    (k : Nat) (vectorIndices : Nat → Nat) (selection : Selection) (s : ProbeState D) (heap : H) :
    ∃ inserted : List Nat, inserted.Nodup ∧ (∀ i ∈ inserted, i < n) ∧
      elems (S.filteredStart query data std n k vectorIndices selection s heap).1 =
        (inserted.map fun i => (⟨vectorIndices i, S.pdxData.quantization.floatOfDistance
          (if selection.selectionVector i then embed (fullSum term v h i)
          else S.pdxData.quantization.halfMax)⟩ : KNNCandidate K) : List (KNNCandidate K)) +
          elems heap ∧
      (selection.passingTuples ≤ (selectedBy selection n).length →
        (∀ i ∈ inserted, selection.selectionVector i) ∧
        IsKSmallest (fun i => embed (fullSum term v h i))
          (min (k - size heap) selection.passingTuples) (selectedBy selection n : Multiset Nat)
          inserted) := by
  set distances :=
    (S.filteredStart query data std n k vectorIndices selection s heap).2.pruningDistances
  have hdist : ∀ i < n, distances i = if selection.selectionVector i then
      embed (fullSum term v h i) else S.pdxData.quantization.halfMax := fun i hi =>
    filteredStart_distances hd hm std k vectorIndices selection s heap hi
  set m := min (k - size heap) selection.passingTuples
  have hperm := std.partialSort_perm distances m (List.range n)
  refine ⟨(std.partialSort distances m (List.range n)).take m,
    (hperm.nodup_iff.mpr List.nodup_range).sublist (List.take_sublist _ _),
    fun i hi => lt_of_mem_take std hi, elems_insertNearest_of_eq S std m vectorIndices hdist heap,
    fun hcount => take_partialSort_filter std ?_ ?_ ((min_le_right _ _).trans hcount)⟩
  · intro i hi hsel
    rw [hdist i hi, if_pos hsel]
  · intro i hi hsel j hj hnot
    rw [hdist i hi, hdist j hj, if_pos hsel, if_neg hnot]
    exact hmark i hi

end Searcher

end PDXearch
