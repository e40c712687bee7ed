import Mathlib.Data.List.Basic
import Mathlib.Data.List.Range

/-!
# Vectors and chunks

What the create sinks and the predicate evaluator of the global index use of DuckDB's vectors: a
vector is flat, or a dictionary, a selection over a flat base vector. Slicing a vector gives a
dictionary; `Flatten` carries the selection out. `ArrayVector::GetEntry` gives the child data of
the base vector, whatever the selection.
-/

namespace PDXearch

/-- The data of a flat vector with its validity mask. -/
structure FlatVector (α : Type) where
  data : Nat → α
  rowIsValid : Nat → Bool

/-- `Vector` -/
inductive DataVector (α : Type)
  | flat (base : FlatVector α)
  | dictionary (base : FlatVector α) (sel : Nat → Nat)

namespace DataVector

variable {α : Type}

/-- The vector without its selection. -/
def base : DataVector α → FlatVector α
  | flat base => base
  | dictionary base _ => base

/-- The position in the base vector that holds row `i`. -/
def position : DataVector α → Nat → Nat
  | flat _, i => i
  | dictionary _ sel, i => sel i

/-- The value of row `i`. -/
def get (v : DataVector α) (i : Nat) : α := v.base.data (v.position i)

def rowIsValid (v : DataVector α) (i : Nat) : Bool := v.base.rowIsValid (v.position i)

/-- `Slice` -/
def slice (v : DataVector α) (sel : Nat → Nat) : DataVector α :=
  dictionary v.base fun i => v.position (sel i)

/-- `Flatten` -/
def flatten (v : DataVector α) : FlatVector α := ⟨v.get, v.rowIsValid⟩

@[simp] theorem get_slice (v : DataVector α) (sel : Nat → Nat) (i : Nat) :
    (v.slice sel).get i = v.get (sel i) := rfl

end DataVector

/-- A chunk as the create sinks receive it: the keys and the row ids. -/
structure CreateChunk (K : Type) where
  size : Nat
  embeddings : DataVector (Nat → K)
  rowIds : DataVector Nat

namespace CreateChunk

variable {K : Type}

/-- The rows that `IS NOT NULL` lets through. -/
def notNullRows (chunk : CreateChunk K) : List Nat :=
  (List.range chunk.size).filter fun i => chunk.embeddings.rowIsValid i

/-- The `PhysicalFilter` below the create sinks: a chunk whose rows all pass is handed on as it is,
any other is sliced. -/
def filterNotNull (chunk : CreateChunk K) : CreateChunk K :=
  if chunk.notNullRows.length = chunk.size then chunk
  else
    { size := chunk.notNullRows.length
      embeddings := chunk.embeddings.slice fun i => chunk.notNullRows.getD i 0
      rowIds := chunk.rowIds.slice fun i => chunk.notNullRows.getD i 0 }

/-- The chunk holds rows of a table in which row `r` has the embedding `table r`. -/
def Holds (table : Nat → Nat → K) (chunk : CreateChunk K) : Prop :=
  ∀ i < chunk.size, chunk.embeddings.get i = table (chunk.rowIds.get i)

/-- The filter passes rows of the table on. -/
theorem Holds.filterNotNull {table : Nat → Nat → K} {chunk : CreateChunk K}
    (h : chunk.Holds table) : chunk.filterNotNull.Holds table := by
  rw [CreateChunk.filterNotNull]
  split_ifs
  · exact h
  · intro i hi
    have hmem : chunk.notNullRows.getD i 0 ∈ chunk.notNullRows := by
      rw [List.getD_eq_getElem?_getD, List.getElem?_eq_getElem hi]
      exact List.getElem_mem hi
    exact h _ (List.mem_range.mp (List.mem_filter.mp hmem).1)

end CreateChunk

end PDXearch
