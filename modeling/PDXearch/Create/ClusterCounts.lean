import PDXearch.Create.Pipeline
import Mathlib.Analysis.Real.Sqrt
import Mathlib.Order.Interval.Finset.Nat

/-!
# Numbers of clusters

The number of clusters of every row group is computed from the number of rows of the whole table, that
of the global index from the square root of the number of embeddings. K-means needs an embedding for
every cluster. A last row group with few rows has too few of them, and so has a table of less than
four rows for the global index.
-/

namespace PDXearch

open Lib

/-! ## The global index -/

/-- `std::ceil(factor * std::sqrt(n))`: the least number whose square is at least that of
`factor * std::sqrt(n)`. -/
def ceilMulSqrt (factor n : Nat) : Nat :=
  let square := factor * factor * n
  if Nat.sqrt square * Nat.sqrt square = square then Nat.sqrt square else Nat.sqrt square + 1

theorem ceilMulSqrt_le_iff {factor n k : Nat} :
    ceilMulSqrt factor n ≤ k ↔ factor * factor * n ≤ k * k := by
  unfold ceilMulSqrt
  simp only
  generalize factor * factor * n = square
  have hle := Nat.sqrt_le square
  split
  · rename_i hsquare
    rw [← Nat.mul_self_le_mul_self_iff, hsquare]
  · rename_i hsquare
    rw [Nat.succ_le_iff, Nat.sqrt_lt]
    constructor
    · exact Nat.le_of_lt
    · intro h
      refine lt_of_le_of_ne h ?_
      rintro rfl
      exact hsquare (by rw [Nat.sqrt_eq])

theorem ceilMulSqrt_eq (factor n : Nat) :
    ceilMulSqrt factor n = ⌈(factor : Real) * Real.sqrt n⌉₊ := by
  refine eq_of_forall_ge_iff fun k => ?_
  have hsqrt : (factor : Real) * Real.sqrt n = Real.sqrt (factor * factor * n) := by
    rw [Real.sqrt_mul (mul_self_nonneg _), Real.sqrt_mul_self (Nat.cast_nonneg factor)]
  rw [ceilMulSqrt_le_iff, Nat.ceil_le, hsqrt, Real.sqrt_le_left (Nat.cast_nonneg k), sq]
  exact_mod_cast Iff.rfl

/-- `ComputeNumberOfClusters`; its argument is a 32-bit number. -/
def computeNumberOfClusters (numEmbeddings : Nat) : Nat :=
  let numEmbeddings := numEmbeddings % 2 ^ 32
  if numEmbeddings < 500000 then ceilMulSqrt 2 numEmbeddings
  else if numEmbeddings < 2500000 then ceilMulSqrt 4 numEmbeddings
  else ceilMulSqrt 8 numEmbeddings

theorem computeNumberOfClusters_le_iff {n : Nat} (hn : 0 < n) :
    computeNumberOfClusters n ≤ n ↔ 4 ≤ n := by
  have hmod : n % 2 ^ 32 ≤ n := Nat.mod_le _ _
  unfold computeNumberOfClusters
  simp only
  constructor
  · intro h
    by_contra hlt
    rw [Nat.mod_eq_of_lt (by omega), if_pos (by omega), ceilMulSqrt_le_iff] at h
    have hle : 4 ≤ n := Nat.le_of_mul_le_mul_right h hn
    omega
  · intro h
    split
    · rw [ceilMulSqrt_le_iff]
      exact Nat.mul_le_mul h hmod
    · split
      · rw [ceilMulSqrt_le_iff]
        exact Nat.mul_le_mul (by omega) hmod
      · rw [ceilMulSqrt_le_iff]
        exact Nat.mul_le_mul (by omega) hmod

/-! ## The rows of a row group -/

/-- In a table of `n` rows all row groups but the last are full. -/
theorem length_rowsOfRowGroup {n g : Nat} (hn : 0 < n) (hg : g ≤ getRowGroupId (n - 1)) :
    ((List.range n).filter fun r => getRowGroupId r = g).length =
      if g = getRowGroupId (n - 1) then rowsInLastRowGroup n else defaultRowGroupSize := by
  have hrows := rows_eq hn
  have hle := rowsInLastRowGroup_le n
  have hcard : ((List.range n).filter fun r => getRowGroupId r = g).length =
      ((Finset.range n).filter fun r => getRowGroupId r = g).card := rfl
  have hico : ((Finset.range n).filter fun r => getRowGroupId r = g) =
      Finset.Ico (defaultRowGroupSize * g) (min n (defaultRowGroupSize * g + defaultRowGroupSize)) := by
    ext r
    simp only [Finset.mem_filter, Finset.mem_range, Finset.mem_Ico, lt_min_iff]
    unfold getRowGroupId defaultRowGroupSize
    omega
  rw [hcard, hico, Nat.card_Ico]
  unfold getRowGroupId defaultRowGroupSize at *
  split <;> omega

theorem enoughRows_iff {n : Nat} (hn : 0 < n) :
    (∀ g ≤ getRowGroupId (n - 1), PDXearchWrapperParallel.computeNumClustersForRowGroup n ≤
      ((List.range n).filter fun r => getRowGroupId r = g).length) ↔
      n ≤ defaultRowGroupSize ∨ 480 ≤ rowsInLastRowGroup n := by
  have hrows := rows_eq hn
  have hle := rowsInLastRowGroup_le n
  have hlength : ∀ g ≤ getRowGroupId (n - 1), _ := fun g hg => length_rowsOfRowGroup hn hg
  unfold PDXearchWrapperParallel.computeNumClustersForRowGroup
  constructor
  · intro h
    have hlast := h _ le_rfl
    rw [hlength _ le_rfl, if_pos rfl] at hlast
    by_contra hnot
    rw [not_or, not_le, not_le] at hnot
    unfold defaultRowGroupSize at *
    rw [if_neg (by omega), if_neg (by omega)] at hlast
    omega
  · intro h g hg
    rw [hlength g hg]
    rcases h with hsmall | hlast
    · have hone : getRowGroupId (n - 1) = 0 := by
        unfold getRowGroupId defaultRowGroupSize at *
        omega
      rw [hone, Nat.le_zero] at hg
      rw [hone, Nat.mul_zero, Nat.zero_add] at hrows
      rw [hg, hone, if_pos rfl, ← hrows]
      unfold defaultRowGroupSize
      split
      · exact hn
      · split <;> omega
    · unfold defaultRowGroupSize at *
      split_ifs <;> omega

/-! ## The set-ups -/

namespace CreateIndex

variable {K E D : Type} [Field K] [LinearOrder K] [Zero E] {op : CreateIndex K E D} {threads : Nat}
  {memory : Fin threads → EmbeddingBuffer K} {chunks : Fin threads → List (CreateChunk K)}
  {index : PDXearchWrapperParallel K E D} {tr : CreateTrace K threads}
  {p : CreatePool K E D threads}

/-- `num_embeddings >= num_clusters_per_row_group` in every call of `SetUpIndexForRowGroup`. -/
def EnoughEmbeddings (index : PDXearchWrapperParallel K E D) (tr : CreateTrace K threads) : Prop :=
  ∀ e ∈ tr, index.numClustersPerRowGroup ≤ e.2.1.rowGroup.count

/-- The calls are given the rows of the table's row groups. -/
theorem enoughEmbeddings_iff_rows {n : Nat} (hn : 0 < n)
    (hdelivers : DeliversTable n (fun _ => true) chunks)
    (h : Pool.Run op.setUpObj (op.pipeline memory chunks index) tr p) (hfinished : p.Finished) :
    EnoughEmbeddings index tr ↔ ∀ g ≤ getRowGroupId (n - 1), index.numClustersPerRowGroup ≤
      ((List.range n).filter fun r => getRowGroupId r = g).length := by
  have hgrouping := isGrouping_allSetUps op memory index hdelivers.delivered
  have hperm : (filterResult (deliveredRowIds chunks)).Perm (List.range n) := by
    simpa using hdelivers.rows
  have hcalls := perm_allSetUps h hfinished
  have hcount : ∀ call ∈ op.allSetUps memory chunks index, call.rowGroup.count =
      ((List.range n).filter fun r => getRowGroupId r = call.rowGroupId).length := by
    intro call hcall
    have hitems := hgrouping.items_eq _ (List.mem_map_of_mem hcall)
    rw [← (hperm.filter _).length_eq, ← hitems, bufferedRowIds, List.length_map, List.length_range]
  have hoccurs : ∀ g, (∃ call ∈ op.allSetUps memory chunks index, call.rowGroupId = g) ↔
      g ≤ getRowGroupId (n - 1) := by
    intro g
    have hmem := hgrouping.occurs g
    rw [List.map_map, List.mem_map] at hmem
    rw [show (∃ call ∈ op.allSetUps memory chunks index, call.rowGroupId = g) ↔
      ∃ r ∈ filterResult (deliveredRowIds chunks), getRowGroupId r = g from hmem]
    simp only [hperm.mem_iff, List.mem_range]
    constructor
    · rintro ⟨r, hr, rfl⟩
      exact Nat.div_le_div_right (by omega)
    · intro hg
      exact exists_row_of_le hn hg
  unfold EnoughEmbeddings
  constructor
  · intro hall g hg
    obtain ⟨call, hcall, rfl⟩ := (hoccurs g).mpr hg
    obtain ⟨e, he, rfl⟩ := List.mem_map.mp (hcalls.mem_iff.mpr hcall)
    rw [← hcount _ hcall]
    exact hall e he
  · intro hall e he
    have hcall := hcalls.mem_iff.mp (List.mem_map_of_mem he)
    rw [hcount _ hcall]
    exact hall _ ((hoccurs _).mp ⟨_, hcall, rfl⟩)

/-- K-means is asked for at most as many clusters as it has embeddings if and only if the last of
several row groups has at least 480 rows; for the global index if and only if the table has at least
four. -/
theorem enoughEmbeddings_iff {n : Nat} {base : PDXearchWrapper K}
    (hnew : PDXearchWrapperParallel.new base n = some index)
    (hdelivers : DeliversTable n (fun _ => true) chunks)
    (h : Pool.Run op.setUpObj (op.pipeline memory chunks index) tr p) (hfinished : p.Finished) :
    (EnoughEmbeddings index tr ↔ n ≤ defaultRowGroupSize ∨ 480 ≤ rowsInLastRowGroup n) ∧
    (computeNumberOfClusters n ≤ n ↔ 4 ≤ n) := by
  obtain ⟨hpos, hclusters, -, -⟩ := PDXearchWrapperParallel.new_spec hnew
  refine ⟨?_, computeNumberOfClusters_le_iff hpos⟩
  rw [enoughEmbeddings_iff_rows hpos hdelivers h hfinished, hclusters]
  exact enoughRows_iff hpos

/-- A table of four rows. -/
theorem enoughEmbeddings_iff_fourRows :
    ∃ w, PDXearchWrapperParallel.wrapperFor 4 = some w ∧ ∃ tr p,
      Pool.Run oneDimensional.setUpObj (oneThread [flatChunk 4 0] w) tr p ∧ p.Finished ∧
      EnoughEmbeddings w tr ∧ computeNumberOfClusters 4 ≤ 4 := by
  have hdelivers : DeliversTable 4 (fun _ => true) fun _ : Fin 1 => [flatChunk 4 0] :=
    ⟨.of_oneThread (by decide) ⟨by decide, by decide⟩, by decide⟩
  obtain ⟨w, hw⟩ : ∃ w, PDXearchWrapperParallel.wrapperFor 4 = some w := ⟨_, rfl⟩
  obtain ⟨tr, p, hrun, hfinished⟩ :=
    Pool.exists_run_finished oneDimensional.setUpObj (oneThread [flatChunk 4 0] w)
  have hboth := enoughEmbeddings_iff hw hdelivers hrun hfinished
  exact ⟨w, hw, tr, p, hrun, hfinished, hboth.1.mpr (by decide), hboth.2.mpr (by decide)⟩

theorem rowIdList_flatChunk (size firstRow : Nat) :
    (flatChunk size firstRow).rowIdList = List.range' firstRow size := by
  rw [List.range'_eq_map_range]
  rfl

/-- A full row group and one row more. -/
def oneRowMore : List (CreateChunk Rat) :=
  [flatChunk defaultRowGroupSize 0, flatChunk 1 defaultRowGroupSize]

theorem delivers_oneRowMore :
    DeliversTable (defaultRowGroupSize + 1) (fun _ => true) fun _ : Fin 1 => oneRowMore := by
  have hids : oneRowMore.map CreateChunk.rowIdList =
      [List.range' 0 defaultRowGroupSize, [defaultRowGroupSize]] := by
    simp only [oneRowMore, List.map_cons, List.map_nil, rowIdList_flatChunk, List.range'_one]
  have hflatten : (oneRowMore.map CreateChunk.rowIdList).flatten =
      List.range' 0 (defaultRowGroupSize + 1) := by
    rw [hids, List.range'_concat]
    simp
  have hrange : List.range' 0 (defaultRowGroupSize + 1) = List.range (defaultRowGroupSize + 1) :=
    List.range_eq_range'.symm
  have hinOrder : InOrder (oneRowMore.map CreateChunk.rowIdList) := by
    constructor
    · intro chunk hchunk r hr
      rw [hids, List.mem_cons, List.mem_singleton] at hchunk
      rcases hchunk with rfl | rfl
      · exact Nat.div_eq_of_lt (by simpa using hr)
      · rw [List.mem_singleton.mp hr]
        rfl
    · rw [hflatten, hrange]
      exact List.pairwise_lt_range.imp fun hlt => Nat.div_le_div_right hlt.le
  refine ⟨.of_oneThread (hflatten ▸ List.nodup_range') hinOrder, ?_⟩
  have hresult : filterResult (deliveredRowIds fun _ : Fin 1 => oneRowMore) =
      (oneRowMore.map CreateChunk.rowIdList).flatten := by
    simp [filterResult, deliveredRowIds, List.finRange_succ]
  rw [hresult, hflatten, hrange, List.filter_true]

/-- In a table of one row more than a full row group, the last row is to make 480 clusters; in a table
of one row the global index has two. -/
theorem not_enoughEmbeddings_oneRowMore :
    DeliversTable (defaultRowGroupSize + 1) (fun _ => true) (fun _ : Fin 1 => oneRowMore) ∧
      (∃ w, PDXearchWrapperParallel.wrapperFor (defaultRowGroupSize + 1) = some w ∧ ∃ tr p,
        Pool.Run oneDimensional.setUpObj (oneThread oneRowMore w) tr p ∧ p.Finished ∧
        ¬ EnoughEmbeddings w tr) ∧
      ¬ computeNumberOfClusters 1 ≤ 1 := by
  refine ⟨delivers_oneRowMore, ?_, by decide +kernel⟩
  obtain ⟨w, hw⟩ : ∃ w, PDXearchWrapperParallel.wrapperFor (defaultRowGroupSize + 1) = some w :=
    ⟨_, rfl⟩
  obtain ⟨tr, p, hrun, hfinished⟩ :=
    Pool.exists_run_finished oneDimensional.setUpObj (oneThread oneRowMore w)
  refine ⟨w, hw, tr, p, hrun, hfinished, ?_⟩
  rw [enoughEmbeddings_iff_rows (Nat.succ_pos _) delivers_oneRowMore hrun hfinished,
    (PDXearchWrapperParallel.new_spec hw).2.1, enoughRows_iff (Nat.succ_pos _)]
  decide

end CreateIndex

end PDXearch
