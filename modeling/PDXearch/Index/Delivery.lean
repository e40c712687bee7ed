import PDXearch.Index.Wrapper
import PDXearch.Lib.Staging

/-!
# Delivery of rows

Both the create sink and the sink of the filtered scan stand above a filter and are given chunks of
its rows. DuckDB's threads scan row group after row group, each row group by one thread; a filter
keeps the order.
-/

namespace PDXearch

open Lib

/-- Chunks of one row group each, the row groups in ascending order. -/
structure InOrder (inputChunks : List (List Nat)) : Prop where
  sameRowGroup : ∀ inputChunk ∈ inputChunks, ∀ r ∈ inputChunk,
    getRowGroupId r = getRowGroupId (inputChunk.headD 0)
  ascending : inputChunks.flatten.Pairwise fun r r' => getRowGroupId r ≤ getRowGroupId r'

theorem InOrder.chunksInOrder {inputChunks : List (List Nat)} (h : InOrder inputChunks) :
    ChunksInOrder getRowGroupId inputChunks := by
  refine ⟨?_, h.ascending⟩
  intro inputChunk hmem r hr r' hr'
  rw [h.sameRowGroup inputChunk hmem r hr, h.sameRowGroup inputChunk hmem r' hr']

section Threads

variable {threads : Nat}

/-- The row ids that the filter emits. -/
def filterResult (inputChunks : Fin threads → List (List Nat)) : List Nat :=
  (List.finRange threads).flatMap fun i => (inputChunks i).flatten

/-- Distinct row ids; every row group goes to one thread, and every thread gets its row groups in
order. -/
structure Delivered (inputChunks : Fin threads → List (List Nat)) : Prop where
  nodup : (filterResult inputChunks).Nodup
  inOrder : ∀ i, InOrder (inputChunks i)
  oneThread : ∀ i i', ∀ r ∈ (inputChunks i).flatten, ∀ r' ∈ (inputChunks i').flatten,
    getRowGroupId r = getRowGroupId r' → i = i'

end Threads

theorem Delivered.of_oneThread {inputChunks : List (List Nat)} (hnodup : inputChunks.flatten.Nodup)
    (h : InOrder inputChunks) : Delivered fun _ : Fin 1 => inputChunks where
  nodup := by simpa [filterResult, List.finRange_succ] using hnodup
  inOrder _ := h
  oneThread _ _ _ _ _ _ _ := Subsingleton.elim _ _

/-- Thread `i` is given rows of row group `i`. -/
theorem Delivered.of_rowGroups {threads : Nat} {inputChunks : Fin threads → List (List Nat)}
    (hnodup : ∀ i, (inputChunks i).flatten.Nodup)
    (hgroup : ∀ i, ∀ r ∈ (inputChunks i).flatten, getRowGroupId r = i) :
    Delivered inputChunks := by
  refine ⟨List.nodup_flatMap.mpr ⟨fun i _ => hnodup i, ?_⟩, fun i => ⟨?_, ?_⟩, ?_⟩
  · refine (List.nodup_finRange threads).imp fun hne r hr hr' => hne (Fin.ext ?_)
    exact (hgroup _ r hr).symm.trans (hgroup _ r hr')
  · intro inputChunk hchunk r hr
    obtain ⟨first, rest, rfl⟩ := List.exists_cons_of_ne_nil (List.ne_nil_of_mem hr)
    rw [hgroup i r (List.mem_flatten_of_mem hchunk hr), List.headD_cons,
      hgroup i first (List.mem_flatten_of_mem hchunk List.mem_cons_self)]
  · refine List.pairwise_of_forall_mem_list fun r hr r' hr' => ?_
    rw [hgroup i r hr, hgroup i r' hr']
  · intro i i' r hr r' hr' heq
    exact Fin.ext ((hgroup i r hr).symm.trans (heq.trans (hgroup i' r' hr')))

end PDXearch
