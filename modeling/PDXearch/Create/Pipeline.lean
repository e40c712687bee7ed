import PDXearch.Create.SetUps
import PDXearch.Index.RowGroupSlots
import PDXearch.Lib.Client

/-!
# The create pipeline

Any number of threads set up the row groups of one index. The slots are allocated for all rows of the
table, but a row group is set up only if one of its rows has an embedding: what comes after, the size
of the index in memory and the unfiltered scan, goes through all slots.
-/

namespace PDXearch

open Lib

/-! ## Going through the slots -/

namespace PDXearchWrapperParallel

section Definitions

variable {K E D : Type} (w : PDXearchWrapperParallel K E D)

/-- `GetInMemorySizeInBytes`, with the sizes of the wrapper itself and of a row group that is set up.
An empty slot has no index to ask for its size. -/
def getInMemorySizeInBytes (sizeOfThis : Nat) (rowGroupSize : PDXRowGroup K E D → Nat) : Option Nat :=
  (List.range w.numRowGroups).foldlM (fun size g =>
    (w.rowGroups g).map fun rowGroup => size + rowGroupSize rowGroup) sizeOfThis

variable [Field K] [LinearOrder K]

/-- `InitializeSearchForRowGroup`. An empty slot has no searcher to initialise. -/
def initializeSearchForRowGroup (std : StdSort) (preprocessedQueryEmbedding : Nat → K)
    (limit rowGroupId : Nat) : Option (Searcher K E D) :=
  (w.rowGroups rowGroupId).map fun rowGroup =>
    rowGroup.searcher.initializeSearch std preprocessedQueryEmbedding limit none

/-- The searches of the tasks that `PDXearchScanSearchEvent::Schedule` creates. -/
def scanTasks (std : StdSort) (preprocessedQueryEmbedding : Nat → K) (limit : Nat) :
    Option (List (Searcher K E D)) :=
  (List.range w.numRowGroups).mapM
    (w.initializeSearchForRowGroup std preprocessedQueryEmbedding limit)

end Definitions

section Slots

theorem isSome_foldlM_iff {A B : Type} {f : B → A → Option B} {P : A → Prop}
    (hf : ∀ b a, (f b a).isSome ↔ P a) (as : List A) (b : B) :
    (as.foldlM f b).isSome ↔ ∀ a ∈ as, P a := by
  induction as generalizing b with
  | nil => simp
  | cons a as ih =>
    rw [List.foldlM_cons, List.forall_mem_cons, ← hf b a]
    cases f b a with
    | none => simp
    | some b' => simpa using ih b'

theorem isSome_mapM_iff {A B : Type} (f : A → Option B) (as : List A) :
    (as.mapM f).isSome ↔ ∀ a ∈ as, (f a).isSome := by
  induction as with
  | nil => simp
  | cons a as ih =>
    rw [List.mapM_cons, List.forall_mem_cons, ← ih]
    cases f a with
    | none => simp
    | some b => cases as.mapM f <;> simp

variable {K E D : Type} (w : PDXearchWrapperParallel K E D)

/-- All slots have been set up. -/
def Filled : Prop := ∀ g < w.numRowGroups, (w.rowGroups g).isSome

theorem isSome_getInMemorySizeInBytes_iff (sizeOfThis : Nat) (rowGroupSize : PDXRowGroup K E D → Nat) :
    (w.getInMemorySizeInBytes sizeOfThis rowGroupSize).isSome ↔ w.Filled := by
  unfold getInMemorySizeInBytes Filled
  rw [isSome_foldlM_iff (P := fun g => (w.rowGroups g).isSome) (by simp)]
  simp

theorem isSome_scanTasks_iff [Field K] [LinearOrder K] (std : StdSort)
    (preprocessedQueryEmbedding : Nat → K) (limit : Nat) :
    (w.scanTasks std preprocessedQueryEmbedding limit).isSome ↔ w.Filled := by
  unfold scanTasks Filled
  rw [isSome_mapM_iff]
  simp [initializeSearchForRowGroup]

end Slots

end PDXearchWrapperParallel

/-! ## Runs of the pipeline -/

section Delivers

variable {K : Type} {threads : Nat}

/-- The row ids that the threads are given. -/
def deliveredRowIds (chunks : Fin threads → List (CreateChunk K)) : Fin threads → List (List Nat) :=
  fun i => (chunks i).map CreateChunk.rowIdList

/-- Of a table with `n` rows those with an embedding are delivered to the sinks. -/
structure DeliversTable (n : Nat) (notNull : Nat → Bool)
    (chunks : Fin threads → List (CreateChunk K)) : Prop where
  delivered : Delivered (deliveredRowIds chunks)
  rows : (filterResult (deliveredRowIds chunks)).Perm ((List.range n).filter notNull)

end Delivers

namespace CreateIndex

variable {K E D : Type} [Field K] [LinearOrder K] [Zero E] (op : CreateIndex K E D) {threads : Nat}

/-- The threads' shared index and their programs. -/
abbrev CreatePool (K E D : Type) (threads : Nat) : Type :=
  Pool (PDXearchWrapperParallel K E D) (Fin threads) (SetUpCall K) (fun _ => Unit) Unit

abbrev CreateTrace (K : Type) (threads : Nat) : Type :=
  List (Fin threads × Client.Event (SetUpCall K) fun _ => Unit)

def setUpObj (call : SetUpCall K) (index : PDXearchWrapperParallel K E D) :
    Unit × PDXearchWrapperParallel K E D :=
  ((), op.setUp index call)

/-- The pipeline before the first chunk; every thread sinks its chunks and is then combined. -/
def pipeline (memory : Fin threads → EmbeddingBuffer K) (chunks : Fin threads → List (CreateChunk K))
    (index : PDXearchWrapperParallel K E D) : CreatePool K E D threads :=
  ⟨index, fun i => .performAll (op.setUps (chunks i) (initialParallelState (memory i) index))⟩

/-- The calls of all threads. -/
def allSetUps (memory : Fin threads → EmbeddingBuffer K)
    (chunks : Fin threads → List (CreateChunk K)) (index : PDXearchWrapperParallel K E D) :
    List (SetUpCall K) :=
  (List.finRange threads).flatMap fun i =>
    op.setUps (chunks i) (initialParallelState (memory i) index)

section Runs

variable {op} {memory : Fin threads → EmbeddingBuffer K}
  {chunks : Fin threads → List (CreateChunk K)} {index : PDXearchWrapperParallel K E D}
  {tr : CreateTrace K threads} {p : CreatePool K E D threads}

/-- The calls of the threads are about the row groups that are delivered, each with all its rows. -/
theorem isGrouping_allSetUps (op : CreateIndex K E D) (memory : Fin threads → EmbeddingBuffer K)
    (index : PDXearchWrapperParallel K E D) (h : Delivered (deliveredRowIds chunks)) :
    IsGrouping getRowGroupId (filterResult (deliveredRowIds chunks))
      ((op.allSetUps memory chunks index).map fun call =>
        (call.rowGroupId, bufferedRowIds call.rowGroup)) := by
  have hthread : ∀ i, IsGrouping getRowGroupId (deliveredRowIds chunks i).flatten
      ((op.setUps (chunks i) (initialParallelState (memory i) index)).map fun call =>
        (call.rowGroupId, bufferedRowIds call.rowGroup)) := by
    intro i
    have hsetUps := op.setUps_rowIds_isSortedGrouping (h.inOrder i) (memory i) index
    rw [List.flatMap_def] at hsetUps
    exact hsetUps.toIsGrouping
  rw [allSetUps, List.map_flatMap]
  exact .flatMap (List.nodup_finRange threads) hthread h.oneThread

/-- When all threads have been combined, all calls have been made. -/
theorem perm_allSetUps (h : Pool.Run op.setUpObj (op.pipeline memory chunks index) tr p)
    (hfinished : p.Finished) : (tr.map fun e => e.2.1).Perm (op.allSetUps memory chunks index) :=
  h.perm_performAll (List.nodup_finRange threads) List.mem_finRange hfinished

omit [LinearOrder K] in
theorem numRowGroups_foldl_setUp (calls : List (SetUpCall K)) (w : PDXearchWrapperParallel K E D) :
    (calls.foldl op.setUp w).numRowGroups = w.numRowGroups := by
  induction calls generalizing w with
  | nil => rfl
  | cons call calls ih => exact ih _

omit [LinearOrder K] in
theorem isSome_foldl_setUp_iff (calls : List (SetUpCall K)) (w : PDXearchWrapperParallel K E D)
    (g : Nat) : ((calls.foldl op.setUp w).rowGroups g).isSome ↔
      (w.rowGroups g).isSome ∨ g ∈ calls.map SetUpCall.rowGroupId := by
  induction calls generalizing w with
  | nil => simp
  | cons call calls ih =>
    rw [List.foldl_cons, ih, List.map_cons, List.mem_cons, ← or_assoc]
    refine or_congr_left ?_
    unfold setUp PDXearchWrapperParallel.setUpIndexForRowGroup
    by_cases hg : g = call.rowGroupId
    · subst hg
      simp
    · simp [hg]

/-- Every slot was set up by one call; all are there for the size in memory and for a scan. -/
structure SetsUpEverySlot (tr : CreateTrace K threads) (w : PDXearchWrapperParallel K E D) :
    Prop where
  setUpOnce : ∀ g < w.numRowGroups, (tr.map fun e => e.2.1.rowGroupId).count g = 1
  filled : ∀ g < w.numRowGroups, (w.rowGroups g).isSome
  memorySize : ∀ sizeOfThis rowGroupSize,
    (w.getInMemorySizeInBytes sizeOfThis rowGroupSize).isSome
  scan : ∀ std preprocessedQueryEmbedding limit,
    (w.scanTasks std preprocessedQueryEmbedding limit).isSome

/-- The slots that are set up are those of the row groups with a delivered row. -/
theorem setsUpEverySlot_iff_delivered (hdelivered : Delivered (deliveredRowIds chunks))
    (hempty : ∀ g, index.rowGroups g = none)
    (h : Pool.Run op.setUpObj (op.pipeline memory chunks index) tr p) (hfinished : p.Finished) :
    SetsUpEverySlot tr p.shared ↔ ∀ g < index.numRowGroups,
      ∃ r ∈ filterResult (deliveredRowIds chunks), getRowGroupId r = g := by
  have hperm := perm_allSetUps h hfinished
  have hids := hperm.map SetUpCall.rowGroupId
  rw [List.map_map] at hids
  have hgrouping := isGrouping_allSetUps op memory index hdelivered
  have hshared : p.shared = (tr.map fun e => e.2.1).foldl op.setUp index := h.shared_eq
  have hnum : p.shared.numRowGroups = index.numRowGroups := by
    rw [hshared, numRowGroups_foldl_setUp]
  have hnodup := hgrouping.nodup
  have hoccurs := hgrouping.occurs
  rw [List.map_map] at hnodup hoccurs
  have hmem : ∀ g, g ∈ tr.map (fun e => e.2.1.rowGroupId) ↔
      ∃ r ∈ filterResult (deliveredRowIds chunks), getRowGroupId r = g := by
    intro g
    rw [← hoccurs g]
    exact hids.mem_iff
  have hfilled : p.shared.Filled ↔ ∀ g < index.numRowGroups,
      ∃ r ∈ filterResult (deliveredRowIds chunks), getRowGroupId r = g := by
    unfold PDXearchWrapperParallel.Filled
    rw [hnum]
    refine forall₂_congr fun g _ => ?_
    rw [hshared, isSome_foldl_setUp_iff, hempty, List.map_map, ← hmem]
    simp [Function.comp_def]
  constructor
  · intro hsetUp
    exact hfilled.mp hsetUp.filled
  · intro hrows
    have hfull := hfilled.mpr hrows
    refine ⟨fun g hg => ?_, hfull, fun _ _ => ?_, fun _ _ _ => ?_⟩
    · exact List.count_eq_one_of_mem (hids.nodup_iff.mpr hnodup) ((hmem g).mpr (hrows g (hnum ▸ hg)))
    · exact (p.shared.isSome_getInMemorySizeInBytes_iff _ _).mpr hfull
    · exact (p.shared.isSome_scanTasks_iff _ _ _).mpr hfull

/-- Every slot is set up once, and is there for what comes after, if and only if every row group of
the table has a row with an embedding. -/
theorem setsUpEverySlot_iff {n : Nat} {base : PDXearchWrapper K}
    (hnew : PDXearchWrapperParallel.new base n = some index)
    (hnum : (index.numRowGroups : Int) = ⌈(n : Rat) / defaultRowGroupSize⌉) {notNull : Nat → Bool}
    (hdelivers : DeliversTable n notNull chunks)
    (h : Pool.Run op.setUpObj (op.pipeline memory chunks index) tr p) (hfinished : p.Finished) :
    SetsUpEverySlot tr p.shared ↔
      ∀ s < n, ∃ r < n, notNull r ∧ getRowGroupId r = getRowGroupId s := by
  obtain ⟨hpos, -, -, hempty⟩ := PDXearchWrapperParallel.new_spec hnew
  rw [ceil_div_size hpos] at hnum
  have hslots := (PDXearchWrapperParallel.slotForEveryRowGroup_iff_numRowGroups hpos).mpr
    (by exact_mod_cast hnum : index.numRowGroups = getRowGroupId (n - 1) + 1)
  have hrow : ∀ g, (∃ r ∈ filterResult (deliveredRowIds chunks), getRowGroupId r = g) ↔
      ∃ r < n, notNull r ∧ getRowGroupId r = g := by
    intro g
    simp only [hdelivers.rows.mem_iff, List.mem_filter, List.mem_range, and_assoc]
  rw [setsUpEverySlot_iff_delivered hdelivers.delivered hempty h hfinished]
  simp only [hrow]
  constructor
  · intro hall s hs
    exact hall _ (hslots.getRowGroupId_lt s hs)
  · intro hall g hg
    obtain ⟨s, hs, rfl⟩ := hslots.exists_row g hg
    exact hall s hs

end Runs

/-! ## Tables with NULLs -/

/-- One thread that is given all chunks. -/
def oneThread (chunks : List (CreateChunk Rat))
    (index : PDXearchWrapperParallel Rat Rat (ExactFloat Rat)) :
    CreatePool Rat Rat (ExactFloat Rat) 1 :=
  oneDimensional.pipeline (fun _ => ⟨0, fun _ => 0, fun _ => 0⟩) (fun _ => chunks) index

/-- A table of two rows, the first of them without an embedding. -/
theorem setsUpEverySlot_iff_secondRow :
    ∃ w, PDXearchWrapperParallel.wrapperFor 2 = some w ∧ ∃ tr p,
      Pool.Run oneDimensional.setUpObj (oneThread [flatChunk 1 1] w) tr p ∧ p.Finished ∧
      SetsUpEverySlot tr p.shared := by
  have hdelivers : DeliversTable 2 (· = 1) fun _ : Fin 1 => [flatChunk 1 1] :=
    ⟨.of_oneThread (by decide) ⟨by decide, by decide⟩, by decide⟩
  refine ⟨_, rfl, ?_⟩
  obtain ⟨tr, p, hrun, hfinished⟩ :=
    Pool.exists_run_finished oneDimensional.setUpObj (oneThread [flatChunk 1 1] _)
  exact ⟨tr, p, hrun, hfinished,
    (setsUpEverySlot_iff rfl (by decide +kernel) hdelivers hrun hfinished).mpr (by decide)⟩

/-- A table of one row, without an embedding: its slot stays empty, and the size of the index in memory
is asked of it. -/
theorem not_setsUpEverySlot_null :
    DeliversTable 1 (fun _ => false) (fun _ : Fin 1 => ([] : List (CreateChunk Rat))) ∧
      ∃ w, PDXearchWrapperParallel.wrapperFor 1 = some w ∧
        (w.numRowGroups : Int) = ⌈((1 : Nat) : Rat) / defaultRowGroupSize⌉ ∧ ∃ tr p,
          Pool.Run oneDimensional.setUpObj (oneThread [] w) tr p ∧ p.Finished ∧
          p.shared.getInMemorySizeInBytes 0 (fun _ => 0) = none ∧ ¬ SetsUpEverySlot tr p.shared := by
  refine ⟨⟨.of_oneThread .nil ⟨by simp, .nil⟩, by decide⟩, _, rfl, by decide +kernel, [], _, .refl _,
    fun i => ⟨(), rfl⟩, ?_, fun h => ?_⟩
  · decide +kernel
  · exact absurd (h.memorySize 0 fun _ => 0) (by decide +kernel)

end CreateIndex

end PDXearch
