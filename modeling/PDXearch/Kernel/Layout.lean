import PDXearch.Kernel.ScalarComputers
import PDXearch.Lib.Buffer

/-!
# The layout of a cluster

`StoreClusterEmbeddings` as lists of stores. The matrix assignments cover the buffer from its first
cell to its last, each once (`storeClusterEmbeddingsF32_cells`, `storeClusterEmbeddingsU8_cells`),
and `readF32` and `readU8`, by which the distance computers read, get every embedding back.
-/

namespace PDXearch

open Lib

variable {E : Type}

/-- Row `i`, column `d` of the row-major input matrix. -/
def inputAt (numDimensions : Nat) (embeddings : Nat → E) (i d : Nat) : E :=
  embeddings (i * numDimensions + d)

/-- The loop over the horizontal blocks, the same in both specialisations. -/
def storeHorizontal (verticalD horizontalD numEmbeddings : Nat) (input : Nat → Nat → E) :
    List (Nat × E) :=
  (forRange horizontalD hDimSize).flatMap fun j =>
    matrixStores (numEmbeddings * verticalD + j * numEmbeddings) numEmbeddings hDimSize
      fun i t => input i (verticalD + j + t)

/-- `StoreClusterEmbeddings<F32>` -/
def storeClusterEmbeddingsF32 (verticalD horizontalD numEmbeddings : Nat) (input : Nat → Nat → E) :
    List (Nat × E) :=
  matrixStores 0 verticalD numEmbeddings (fun d i => input i d) ++
    storeHorizontal verticalD horizontalD numEmbeddings input

/-- `StoreClusterEmbeddings<U8>` -/
def storeClusterEmbeddingsU8 (verticalD horizontalD numEmbeddings : Nat) (input : Nat → Nat → E) :
    List (Nat × E) :=
  let groups := verticalD / u8InterleaveSize
  let dim := u8InterleaveSize * groups
  ((List.range groups).flatMap fun group =>
    matrixStores (u8InterleaveSize * group * numEmbeddings) numEmbeddings u8InterleaveSize
      fun i t => input i (u8InterleaveSize * group + t)) ++
  (if dim < verticalD then
    matrixStores (dim * numEmbeddings) numEmbeddings (verticalD - dim) fun i t => input i (dim + t)
  else []) ++
  storeHorizontal verticalD horizontalD numEmbeddings input

section Horizontal

variable {v h n : Nat} {input : Nat → Nat → E}

theorem storeHorizontal_cells (hh : hDimSize ∣ h) :
    (storeHorizontal v h n input).map Prod.fst = List.range' (n * v) (n * h) := by
  have hcells := matricesStores_cells (n * v) n hDimSize (h / hDimSize)
    (fun b i t => input i (v + hDimSize * b + t))
  rw [storeHorizontal, forRange_of_dvd hh (by decide), List.flatMap_map, hcells,
    Nat.mul_div_cancel' hh]

theorem mem_storeHorizontal (hh : hDimSize ∣ h) {i d : Nat} (hi : i < n) (hv : v ≤ d)
    (hd : d < v + h) :
    (n * v + (d - v) / hDimSize * hDimSize * n + i * hDimSize + (d - v) % hDimSize, input i d) ∈
      storeHorizontal v h n input := by
  have hmod : (d - v) % hDimSize < hDimSize := Nat.mod_lt _ (by decide)
  have hsum : v + (d - v) / hDimSize * hDimSize + (d - v) % hDimSize = d := by
    have := Nat.div_add_mod' (d - v) hDimSize
    omega
  rw [storeHorizontal, forRange_of_dvd hh (by decide), List.mem_flatMap]
  refine ⟨(d - v) / hDimSize * hDimSize, List.mem_map.mpr ⟨(d - v) / hDimSize, ?_, ?_⟩, ?_⟩
  · exact List.mem_range.mpr (Nat.div_lt_div_of_lt_of_dvd hh (by omega))
  · exact Nat.mul_comm _ _
  · have hmem := mem_matrixStores (n * v + (d - v) / hDimSize * hDimSize * n)
      (fun i t => input i (v + (d - v) / hDimSize * hDimSize + t)) hi hmod
    rwa [hsum] at hmem

end Horizontal

/-- Two intervals of cells, one behind the other. -/
theorem range'_append_cells (n a b : Nat) :
    List.range' 0 (n * a) ++ List.range' (n * a) (n * b) = List.range' 0 (n * (a + b)) := by
  rw [Nat.mul_add]
  simpa using List.range'_append_1 (s := 0) (m := n * a) (n := n * b)

section F32

variable {v h n : Nat} {input : Nat → Nat → E}

/-- Every cell of the buffer is written exactly once. -/
theorem storeClusterEmbeddingsF32_cells (hh : hDimSize ∣ h) :
    (storeClusterEmbeddingsF32 v h n input).map Prod.fst = List.range (n * (v + h)) := by
  rw [storeClusterEmbeddingsF32, List.map_append, storeHorizontal_cells hh, matrixStores_cells,
    Nat.mul_comm v n, range'_append_cells, List.range_eq_range']

theorem readF32_store {K : Type} {input : Nat → Nat → K} (hh : hDimSize ∣ h) (buffer : Nat → K)
    {i d : Nat} (hi : i < n) (hd : d < v + h) :
    readF32 v n (store (storeClusterEmbeddingsF32 v h n input) buffer) i d = input i d := by
  have hnodup : ((storeClusterEmbeddingsF32 v h n input).map Prod.fst).Nodup := by
    rw [storeClusterEmbeddingsF32_cells hh]
    exact List.nodup_range
  rw [readF32]
  split_ifs with hv
  · refine store_of_mem buffer hnodup (List.mem_append_left _ ?_)
    simpa using mem_matrixStores 0 (fun d i => input i d) hv hi
  · rw [Nat.mul_comm v n]
    exact store_of_mem buffer hnodup (List.mem_append_right _
      (mem_storeHorizontal hh hi (not_lt.mp hv) hd))

end F32

section U8

variable {v h n : Nat}

/-- Every cell of the buffer is written exactly once. -/
theorem storeClusterEmbeddingsU8_cells {input : Nat → Nat → E} (hh : hDimSize ∣ h) :
    (storeClusterEmbeddingsU8 v h n input).map Prod.fst = List.range (n * (v + h)) := by
  have hgroups := matricesStores_cells 0 n 4 (v / 4) (fun b i t => input i (4 * b + t))
  simp only [Nat.zero_add] at hgroups
  have htail : (if 4 * (v / 4) < v then
      matrixStores (4 * (v / 4) * n) n (v - 4 * (v / 4)) fun i t => input i (4 * (v / 4) + t)
      else []).map Prod.fst = List.range' (n * (4 * (v / 4))) (n * (v - 4 * (v / 4))) := by
    split_ifs with hlt
    · rw [matrixStores_cells, Nat.mul_comm n (4 * (v / 4))]
    · rw [show v - 4 * (v / 4) = 0 by omega]
      simp
  simp only [storeClusterEmbeddingsU8, u8InterleaveSize, List.map_append]
  rw [hgroups, htail, storeHorizontal_cells hh, range'_append_cells,
    show 4 * (v / 4) + (v - 4 * (v / 4)) = v by omega, range'_append_cells, List.range_eq_range']

theorem readU8_store {input : Nat → Nat → UInt8} (hh : hDimSize ∣ h) (buffer : Nat → UInt8)
    {i d : Nat} (hi : i < n) (hd : d < v + h) :
    readU8 v n (store (storeClusterEmbeddingsU8 v h n input) buffer) i d = input i d := by
  have hnodup : ((storeClusterEmbeddingsU8 v h n input).map Prod.fst).Nodup := by
    rw [storeClusterEmbeddingsU8_cells hh]
    exact List.nodup_range
  have hmod : d % 4 < 4 := Nat.mod_lt _ (by decide)
  have hsum : 4 * (d / 4) + d % 4 = d := Nat.div_add_mod d 4
  simp only [readU8, u8InterleaveSize]
  split_ifs with hv hgroup
  · refine store_of_mem buffer hnodup (List.mem_append_left _ (List.mem_append_left _ ?_))
    simp only [u8InterleaveSize]
    refine List.mem_flatMap.mpr ⟨d / 4, List.mem_range.mpr (by omega), ?_⟩
    have hmem := mem_matrixStores (4 * (d / 4) * n) (fun i t => input i (4 * (d / 4) + t))
      hi hmod
    rw [Nat.mul_comm (d / 4) 4]
    rwa [hsum] at hmem
  · -- the compact tail starts at the last multiple of four
    have hdim : d / 4 = v / 4 := by omega
    refine store_of_mem buffer hnodup (List.mem_append_left _ (List.mem_append_right _ ?_))
    simp only [u8InterleaveSize]
    rw [if_pos (by omega)]
    have hmem := mem_matrixStores (4 * (v / 4) * n) (fun i t => input i (4 * (v / 4) + t))
      hi (show d % 4 < v - 4 * (v / 4) by omega)
    rw [hdim] at hsum ⊢
    rw [Nat.mul_comm (v / 4) 4]
    rwa [hsum] at hmem
  · rw [Nat.mul_comm v n]
    exact store_of_mem buffer hnodup (List.mem_append_right _
      (mem_storeHorizontal hh hi (not_lt.mp hv) hd))

end U8

end PDXearch
