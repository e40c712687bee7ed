import Mathlib.Data.List.Basic
import Mathlib.Data.List.Range
import Mathlib.Data.List.Nodup
import Mathlib.Logic.Function.Basic

/-!
# Buffers filled by a list of stores

A buffer is a function of the cell. What a routine does to it is the list of its stores, so that
"every cell is written exactly once" is a statement about that list. A row-major matrix placed at
a cell of the buffer covers an interval of cells row by row, and consecutive matrices cover
consecutive intervals.
-/

namespace PDXearch.Lib

variable {α : Type}

/-- Carry out stores `(cell, value)`, the first one first. -/
def store (ws : List (Nat × α)) (a : Nat → α) : Nat → α :=
  ws.foldl (fun a w => Function.update a w.1 w.2) a

theorem store_of_not_mem {ws : List (Nat × α)} {i : Nat} (a : Nat → α)
    (hi : i ∉ ws.map Prod.fst) : store ws a i = a i := by
  induction ws generalizing a with
  | nil => rfl
  | cons w ws ih =>
    simp only [List.map_cons, List.mem_cons, not_or] at hi
    exact (ih _ hi.2).trans (Function.update_of_ne hi.1 _ _)

/-- A cell that is written once holds what was written. -/
theorem store_of_mem {ws : List (Nat × α)} {i : Nat} {x : α} (a : Nat → α)
    (hnd : (ws.map Prod.fst).Nodup) (hm : (i, x) ∈ ws) : store ws a i = x := by
  induction ws generalizing a with
  | nil => cases hm
  | cons w ws ih =>
    rw [List.map_cons, List.nodup_cons] at hnd
    rcases List.mem_cons.mp hm with rfl | hm
    · exact (store_of_not_mem _ hnd.1).trans (Function.update_self _ _ _)
    · exact ih _ hnd.2 hm

/-- The values of `j` in `for (j = 0; j < stop; j += step)`. -/
def forRange (stop step : Nat) : List Nat :=
  (List.range ((stop + (step - 1)) / step)).map (step * ·)

theorem forRange_of_dvd {stop step : Nat} (h : step ∣ stop) (hpos : 0 < step) :
    forRange stop step = (List.range (stop / step)).map (step * ·) := by
  obtain ⟨m, rfl⟩ := h
  rw [forRange, Nat.mul_add_div hpos, Nat.div_eq_of_lt (by omega : step - 1 < step), Nat.add_zero,
    Nat.mul_div_cancel_left m hpos]

/-! ## Matrices in a buffer -/

/-- The stores of an assignment to a row-major matrix of `rows × cols` cells starting at `base`. -/
def matrixStores (base rows cols : Nat) (f : Nat → Nat → α) : List (Nat × α) :=
  (List.range rows).flatMap fun r => (List.range cols).map fun c => (base + r * cols + c, f r c)

/-- Consecutive intervals of one width. -/
theorem flatMap_range' (base width m : Nat) :
    ((List.range m).flatMap fun r => List.range' (base + r * width) width) =
      List.range' base (m * width) := by
  induction m with
  | zero => simp
  | succ m ih =>
    rw [List.range_succ, List.flatMap_append, ih, List.flatMap_singleton, Nat.succ_mul]
    exact List.range'_append_1

theorem matrixStores_cells (base rows cols : Nat) (f : Nat → Nat → α) :
    (matrixStores base rows cols f).map Prod.fst = List.range' base (rows * cols) := by
  rw [← flatMap_range']
  simp only [matrixStores, List.map_flatMap, List.map_map]
  congr 1
  funext r
  rw [List.range'_eq_map_range]
  rfl

theorem mem_matrixStores (base : Nat) {rows cols r c : Nat} (f : Nat → Nat → α) (hr : r < rows)
    (hc : c < cols) : (base + r * cols + c, f r c) ∈ matrixStores base rows cols f :=
  List.mem_flatMap.mpr ⟨r, List.mem_range.mpr hr,
    List.mem_map.mpr ⟨c, List.mem_range.mpr hc, rfl⟩⟩

/-- The cells of matrices of `rows × cols` cells laid out one after the other. -/
theorem matricesStores_cells (base rows cols m : Nat) (f : Nat → Nat → Nat → α) :
    ((List.range m).flatMap fun b =>
      matrixStores (base + cols * b * rows) rows cols (f b)).map Prod.fst =
      List.range' base (rows * (cols * m)) := by
  rw [List.map_flatMap]
  simp only [matrixStores_cells]
  have hcells := flatMap_range' base (rows * cols) m
  rw [Nat.mul_comm m, Nat.mul_assoc] at hcells
  rw [← hcells]
  congr 1
  funext b
  rw [Nat.mul_comm cols b, Nat.mul_assoc, Nat.mul_comm cols rows]

end PDXearch.Lib
