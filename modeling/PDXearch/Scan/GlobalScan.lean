import PDXearch.Index.GlobalIndex
import PDXearch.Scan.ScanSource

/-!
# The filtered scan of the global implementation

`PhysicalGlobalPDXearchIndexFilteredScan`. Each thread of the Sink phase copies the row ids it is
given into vectors of its own, `Combine` moves these under the lock into the global state, in
whichever order the threads come, and `Finalize` searches the index once. One thread then emits the
row ids found, a chunk in each call of `GetData`.

Whoever was given which row ids in which chunks, and in whichever order the threads are combined, the
operator emits the same row ids.
-/

namespace PDXearch

open Lib ExactFloat

/-- `VectorOperations::Copy` of the first `count` rows into a new vector, `memory` behind them. -/
def DataVector.copy {α : Type} (memory : FlatVector α) (v : DataVector α) (count : Nat) :
    DataVector α :=
  .flat ⟨fun i => if i < count then v.get i else memory.data i,
    fun i => if i < count then v.rowIsValid i else memory.rowIsValid i⟩

/-- A vector of row ids with its size. -/
abbrev RowIdVector : Type := DataVector Nat × Nat

/-- `SinkResultType` -/
inductive SinkResultType
  | needMoreInput
  | finished

/-- The operator with its bind data, and the number of clusters to probe that is in effect; `limit` is
an `idx_t`. -/
structure GlobalFilteredScan (K E D : Type) where
  limit : Nat
  queryEmbedding : Nat → K
  nProbe : Nat
  index : PDXearchWrapperGlobal K E D

/-- The global state of the Sink phase and the threads, each with one call of `Combine` to make. -/
abbrev CombinePool (threads : Nat) : Type :=
  Pool (List RowIdVector) (Fin threads) (List RowIdVector) (fun _ => Unit) Unit

/-- The phases of the operator. -/
inductive GlobalScanState (threads : Nat)
  | sinking (pool : CombinePool threads)
  | noOutput
  | source (pdxearchRowIds : List Nat) (currentResultIdx : Nat)
  | finished

namespace GlobalFilteredScan

section Sink

variable (memory : FlatVector Nat)

/-- `Sink`: its result, and the vectors in the local state. -/
def sink (localVectors : List RowIdVector) (inputChunk : RowIdVector) :
    SinkResultType × List RowIdVector :=
  if inputChunk.2 = 0 then (.finished, localVectors)
  else (.needMoreInput, localVectors ++ [(inputChunk.1.copy memory inputChunk.2, inputChunk.2)])

/-- What a thread has collected when it has no more input or `Sink` has finished. -/
def sinkChunks : List RowIdVector → List RowIdVector → List RowIdVector
  | localVectors, [] => localVectors
  | localVectors, inputChunk :: inputChunks =>
    match sink memory localVectors inputChunk with
    | (.finished, localVectors) => localVectors
    | (.needMoreInput, localVectors) => sinkChunks localVectors inputChunks

/-- `Combine` -/
def combineObj (localVectors collectedVectors : List RowIdVector) : Unit × List RowIdVector :=
  ((), collectedVectors ++ localVectors)

/-- The operator before the first chunk. -/
def start {threads : Nat} (inputChunks : Fin threads → List RowIdVector) : GlobalScanState threads :=
  .sinking ⟨[], fun i => .performAll [sinkChunks memory [] (inputChunks i)]⟩

end Sink

variable {K E D : Type} [Field K] [LinearOrder K] [LinearOrder D] [Zero E]
  (scan : GlobalFilteredScan K E D) (H : Type) [Heap H K] (context : SearchContext K D)
  {threads : Nat}

/-- The limit as the `uint32_t` that `FilteredSearchGlobal` takes. -/
def k : Nat := scan.limit % 2 ^ 32

omit [LinearOrder K] [LinearOrder D] [Zero E] [Field K] in
theorem k_eq {scan : GlobalFilteredScan K E D} (hlimit : scan.limit < 2 ^ 32) :
    scan.k = scan.limit :=
  Nat.mod_eq_of_lt hlimit

/-- A step: a `Combine`, the `Finalize` after the last one, or a call of `GetData`, with the chunk
that is emitted. -/
inductive Step : GlobalScanState threads → Option (List Nat) → GlobalScanState threads → Prop
  | combine {pool pool' : CombinePool threads}
      {e : Fin threads × Client.Event (List RowIdVector) fun _ => Unit}
      (h : Pool.Step combineObj pool e pool') : Step (.sinking pool) none (.sinking pool')
  | finalizeEmpty {pool : CombinePool threads} (h : pool.Finished) (hempty : pool.shared.isEmpty) :
      Step (.sinking pool) none .noOutput
  | finalize {pool : CombinePool threads} (h : pool.Finished) (hempty : ¬ pool.shared.isEmpty)
      {pdxearchRowIds : List Nat}
      (hsearch : scan.index.filteredSearch H context scan.queryEmbedding scan.k scan.nProbe
        pool.shared = some pdxearchRowIds) : Step (.sinking pool) none (.source pdxearchRowIds 0)
  | getData {pdxearchRowIds : List Nat} {currentResultIdx : Nat}
      (h : outputChunk pdxearchRowIds currentResultIdx ≠ []) :
      Step (.source pdxearchRowIds currentResultIdx)
        (some (outputChunk pdxearchRowIds currentResultIdx))
        (.source pdxearchRowIds
          (currentResultIdx + (outputChunk pdxearchRowIds currentResultIdx).length))
  | getDataFinished {pdxearchRowIds : List Nat} {currentResultIdx : Nat}
      (h : outputChunk pdxearchRowIds currentResultIdx = []) :
      Step (.source pdxearchRowIds currentResultIdx) none .finished

/-- A finite sequence of steps, with the chunks that were emitted. -/
inductive Run : GlobalScanState threads → List (List Nat) → GlobalScanState threads → Prop
  | refl (s : GlobalScanState threads) : Run s [] s
  | snoc {s s' s'' : GlobalScanState threads} {chunks : List (List Nat)} {chunk : Option (List Nat)}
      (h : Run s chunks s') (hs : scan.Step H context s' chunk s'') :
      Run s (chunks ++ chunk.toList) s''

/-! ## The collected row ids -/

section Collected

variable {memory : FlatVector Nat}

theorem emittedRowIds_append (vectors vectors' : List RowIdVector) :
    emittedRowIds (vectors ++ vectors') = emittedRowIds vectors ++ emittedRowIds vectors' :=
  List.flatMap_append

/-- A copy has the row ids of the vector. -/
theorem emittedRowIds_copy (memory : FlatVector Nat) (v : DataVector Nat) (count : Nat) :
    emittedRowIds [(v.copy memory count, count)] = emittedRowIds [(v, count)] := by
  rw [emittedRowIds, emittedRowIds, List.flatMap_singleton, List.flatMap_singleton]
  have hvalid : (List.range count).filter (v.copy memory count).rowIsValid =
      (List.range count).filter v.rowIsValid :=
    List.filter_congr fun i hi => if_pos (List.mem_range.mp hi)
  simp only [hvalid]
  refine List.map_congr_left fun i hi => ?_
  exact if_pos (List.mem_range.mp (List.mem_of_mem_filter hi))

/-- A thread collects the row ids of its chunks, up to the first empty one. -/
theorem emittedRowIds_sinkChunks (localVectors inputChunks : List RowIdVector) :
    emittedRowIds (sinkChunks memory localVectors inputChunks) = emittedRowIds localVectors ++
      emittedRowIds (inputChunks.takeWhile fun inputChunk => inputChunk.2 ≠ 0) := by
  induction inputChunks generalizing localVectors with
  | nil => exact (List.append_nil _).symm
  | cons inputChunk inputChunks ih =>
    rw [sinkChunks, sink]
    by_cases hempty : inputChunk.2 = 0
    · simp [hempty, emittedRowIds]
    · have hcopy := emittedRowIds_copy memory inputChunk.1 inputChunk.2
      simp only [if_neg hempty, ih]
      rw [emittedRowIds_append, hcopy, List.append_assoc, ← emittedRowIds_append,
        List.takeWhile_cons_of_pos (by simpa using hempty)]
      rfl

/-- The row ids that the threads are given before an empty chunk. -/
def sunkRowIds (inputChunks : Fin threads → List RowIdVector) : List Nat :=
  (List.finRange threads).flatMap fun i =>
    emittedRowIds ((inputChunks i).takeWhile fun inputChunk => inputChunk.2 ≠ 0)

theorem shared_eq_flatten {p q : CombinePool threads}
    {tr : List (Fin threads × Client.Event (List RowIdVector) fun _ => Unit)}
    (h : Pool.Run combineObj p tr q) :
    q.shared = p.shared ++ (tr.map fun e => e.2.1).flatten := by
  rw [h.shared_eq]
  generalize tr.map (fun e => e.2.1) = calls
  generalize p.shared = collected
  induction calls generalizing collected with
  | nil => exact (List.append_nil _).symm
  | cons call calls ih =>
    rw [List.foldl_cons, ih, List.flatten_cons, ← List.append_assoc]
    rfl

/-- After the last `Combine` the row ids of all threads have been collected. -/
theorem collected_perm {inputChunks : Fin threads → List RowIdVector} {pool : CombinePool threads}
    {tr : List (Fin threads × Client.Event (List RowIdVector) fun _ => Unit)}
    (h : Pool.Run combineObj
      ⟨[], fun i => .performAll [sinkChunks memory [] (inputChunks i)]⟩ tr pool)
    (hfinished : pool.Finished) : (emittedRowIds pool.shared).Perm (sunkRowIds inputChunks) := by
  have hperm := h.perm_performAll
    (List.nodup_finRange threads) List.mem_finRange hfinished
  have hcalls : ∀ calls : List (List RowIdVector),
      emittedRowIds calls.flatten = calls.flatMap emittedRowIds := by
    intro calls
    induction calls with
    | nil => rfl
    | cons call calls ih =>
      rw [List.flatten_cons, emittedRowIds_append, ih, List.flatMap_cons]
  rw [shared_eq_flatten h, List.nil_append, hcalls]
  refine (hperm.flatMap_right _).trans (List.Perm.of_eq ?_)
  rw [List.flatMap_assoc, sunkRowIds]
  refine List.flatMap_congr fun i _ => ?_
  rw [List.flatMap_singleton, emittedRowIds_sinkChunks]
  rfl

end Collected

/-! ## Runs -/

section Runs

variable {scan H context} {memory : FlatVector Nat} {inputChunks : Fin threads → List RowIdVector}
  {result : List Nat}

/-- The phases that a run passes. -/
inductive Reached (memory : FlatVector Nat) (inputChunks : Fin threads → List RowIdVector)
    (result : List Nat) : List (List Nat) → GlobalScanState threads → Prop
  | sinking {pool : CombinePool threads}
      {tr : List (Fin threads × Client.Event (List RowIdVector) fun _ => Unit)}
      (h : Pool.Run combineObj
        ⟨[], fun i => .performAll [sinkChunks memory [] (inputChunks i)]⟩ tr pool) :
      Reached memory inputChunks result [] (.sinking pool)
  | noOutput (h : result = []) : Reached memory inputChunks result [] .noOutput
  | source {chunks : List (List Nat)} {currentResultIdx : Nat}
      (h : Paged standardVectorSize result chunks currentResultIdx) :
      Reached memory inputChunks result chunks (.source result currentResultIdx)
  | finished {chunks : List (List Nat)} {currentResultIdx : Nat}
      (h : Paged standardVectorSize result chunks currentResultIdx) (hall : chunks.flatten = result) :
      Reached memory inputChunks result chunks .finished

/-- What the search returns for the row ids of the threads. -/
def SearchReturns (scan : GlobalFilteredScan K E D) (H : Type) [Heap H K]
    (context : SearchContext K D) (passing result : List Nat) : Prop :=
  ∀ rowIdVectors, (emittedRowIds rowIdVectors).Perm passing →
    scan.index.filteredSearch H context scan.queryEmbedding scan.k scan.nProbe rowIdVectors =
      some result

theorem Reached.step (hreturns : scan.SearchReturns H context (sunkRowIds inputChunks) result)
    (hnone : sunkRowIds inputChunks = [] → result = []) {chunks : List (List Nat)}
    {s s' : GlobalScanState threads} {chunk : Option (List Nat)}
    (h : Reached memory inputChunks result chunks s) (hs : scan.Step H context s chunk s') :
    Reached memory inputChunks result (chunks ++ chunk.toList) s' := by
  cases hs with
  | combine hstep =>
    cases h with
    | sinking hrun => exact .sinking (.snoc hrun hstep)
  | finalizeEmpty hfinished hempty =>
    cases h with
    | sinking hrun =>
      refine .noOutput (hnone ?_)
      have hperm := collected_perm hrun hfinished
      rw [List.isEmpty_iff.mp hempty] at hperm
      exact hperm.symm.eq_nil
  | finalize hfinished _ hsearch =>
    cases h with
    | sinking hrun =>
      rw [hreturns _ (collected_perm hrun hfinished)] at hsearch
      obtain rfl := Option.some.inj hsearch
      exact .source .nil
  | getData hchunk =>
    cases h with
    | source hpaged =>
      rw [outputChunk_eq_page] at hchunk ⊢
      exact .source (hpaged.snoc hchunk)
  | getDataFinished hchunk =>
    cases h with
    | source hpaged =>
      rw [outputChunk_eq_page] at hchunk
      rw [Option.toList_none, List.append_nil]
      exact .finished hpaged (hpaged.complete (by decide) hchunk).1

theorem reached_of_run (hreturns : scan.SearchReturns H context (sunkRowIds inputChunks) result)
    (hnone : sunkRowIds inputChunks = [] → result = []) {chunks : List (List Nat)}
    {s : GlobalScanState threads} (h : scan.Run H context (start memory inputChunks) chunks s) :
    Reached memory inputChunks result chunks s := by
  induction h with
  | refl => exact .sinking (.refl _)
  | snoc _ hs ih => exact ih.step hreturns hnone hs

theorem Reached.paged {chunks : List (List Nat)} {s : GlobalScanState threads}
    (h : Reached memory inputChunks result chunks s) :
    ∃ position, Paged standardVectorSize result chunks position := by
  cases h with
  | sinking | noOutput => exact ⟨0, .nil⟩
  | source h | finished h _ => exact ⟨_, h⟩

/-- The operator has nothing left to do. -/
def Done : GlobalScanState threads → Prop
  | .noOutput | .finished => True
  | .sinking _ | .source _ _ => False

theorem Reached.flatten_eq {chunks : List (List Nat)} {s : GlobalScanState threads}
    (h : Reached memory inputChunks result chunks s) (hdone : Done s) : chunks.flatten = result := by
  cases h with
  | sinking | source => exact hdone.elim
  | noOutput hnone => exact hnone.symm
  | finished _ hall => exact hall

theorem Reached.exists_step
    (hreturns : scan.SearchReturns H context (sunkRowIds inputChunks) result)
    {chunks : List (List Nat)} {s : GlobalScanState threads}
    (h : Reached memory inputChunks result chunks s) (hdone : ¬ Done s) :
    ∃ chunk s', scan.Step H context s chunk s' := by
  cases h with
  | noOutput | finished => exact absurd trivial hdone
  | @sinking pool _ hrun =>
    by_cases hfinished : pool.Finished
    · by_cases hempty : pool.shared.isEmpty
      · exact ⟨_, _, .finalizeEmpty hfinished hempty⟩
      · exact ⟨_, _, .finalize hfinished hempty (hreturns _ (collected_perm hrun hfinished))⟩
    · obtain ⟨e, pool', hstep⟩ := Pool.exists_step hfinished
      exact ⟨_, _, .combine hstep⟩
  | @source _ position _ =>
    by_cases hchunk : outputChunk result position = []
    · exact ⟨_, _, .getDataFinished hchunk⟩
    · exact ⟨_, _, .getData hchunk⟩

variable (scan H context) in
/-- The steps of the operator, backwards. -/
def StepsFrom (s' s : GlobalScanState threads) : Prop := ∃ chunk, scan.Step H context s chunk s'

theorem acc_of_done {s : GlobalScanState threads} (hdone : Done s) :
    Acc (scan.StepsFrom H context) s := by
  refine ⟨_, fun s' hs => ?_⟩
  obtain ⟨chunk, hs⟩ := hs
  cases hs <;> exact hdone.elim

/-- Every chunk is one of the row ids nearer to the end. -/
theorem acc_source (pdxearchRowIds : List Nat) (currentResultIdx : Nat) :
    Acc (scan.StepsFrom H context)
      (.source pdxearchRowIds currentResultIdx : GlobalScanState threads) := by
  generalize hleft : pdxearchRowIds.length - currentResultIdx = left
  induction left using Nat.strong_induction_on generalizing currentResultIdx with
  | _ left ih =>
    refine ⟨_, fun s' hs => ?_⟩
    obtain ⟨chunk, hs⟩ := hs
    cases hs with
    | getData hchunk =>
      have hpos := List.length_pos_iff.mpr hchunk
      have hlength : (outputChunk pdxearchRowIds currentResultIdx).length ≤ left := by
        rw [outputChunk_eq_page, length_page, hleft]
        exact min_le_right _ _
      exact ih _ (by omega) _ rfl
    | getDataFinished _ => exact acc_of_done trivial

theorem acc_sinking (pool : CombinePool threads) :
    Acc (scan.StepsFrom H context) (.sinking pool) := by
  have hwf : WellFounded fun q p : CombinePool threads => ∃ e, Pool.Step combineObj p e q :=
    Pool.wellFounded_step
  induction pool using hwf.induction with
  | _ pool ih =>
    refine ⟨_, fun s' hs => ?_⟩
    obtain ⟨chunk, hs⟩ := hs
    cases hs with
    | combine hstep => exact ih _ ⟨_, hstep⟩
    | finalizeEmpty _ _ => exact acc_of_done trivial
    | finalize _ _ _ => exact acc_source _ _

/-- Every run ends. -/
theorem wellFounded_stepsFrom :
    WellFounded (scan.StepsFrom H context : GlobalScanState threads → _ → Prop) := by
  refine ⟨fun s => ?_⟩
  cases s with
  | sinking pool => exact acc_sinking pool
  | source pdxearchRowIds currentResultIdx => exact acc_source _ _
  | noOutput | finished => exact acc_of_done trivial

end Runs

/-! ## What the operator emits -/

/-- The row's vector is in a cluster that the search visits. -/
def isVisited (rowId : Nat) : Bool :=
  scan.index.isVisited context scan.queryEmbedding scan.nProbe rowId

/-- The row ids `result` are those of different passing rows in the visited clusters, as many as there
are up to `k`. Every run ends with all of them emitted, in chunks that are full but for the last
one, whichever threads were given the passing row ids in whichever chunks. -/
structure EmitsPassing (passing result : List Nat) : Prop where
  nodup : result.Nodup
  subset : ∀ r ∈ result, r ∈ passing ∧ scan.isVisited context r = true
  length_eq : result.length = min scan.k (passing.filter (scan.isVisited context)).length
  allVisited : scan.nProbe = 0 ∨ scan.index.numClusters ≤ scan.nProbe →
    result.length = min scan.k passing.length
  chunks : ∀ {threads : Nat} (memory : FlatVector Nat) (inputChunks : Fin threads → List RowIdVector),
    (sunkRowIds inputChunks).Perm passing → ∀ chunks s,
      scan.Run H context (start memory inputChunks) chunks s →
        (∃ position, Paged standardVectorSize result chunks position) ∧
        (Done s → chunks.flatten = result) ∧ (¬ Done s → ∃ chunk s', scan.Step H context s chunk s')
  terminates : ∀ threads,
    WellFounded (scan.StepsFrom H context : GlobalScanState threads → _ → Prop)

variable {scan H context}

theorem emitsPassing_of_fills {passing result : List Nat} (hnodup : passing.Nodup)
    (hall : scan.nProbe = 0 ∨ scan.index.numClusters ≤ scan.nProbe →
      ∀ r ∈ passing, scan.isVisited context r = true)
    (hreturns : scan.SearchReturns H context passing result)
    (hfills : Fills (C := Nat) scan.k (passing.filter (scan.isVisited context)) 0 result) :
    scan.EmitsPassing H context passing result := by
  have hle : (result : Multiset Nat) ≤ (passing.filter (scan.isVisited context) : List Nat) :=
    hfills.le.trans_eq (zero_add _)
  have hlength : result.length =
      min scan.k (passing.filter (scan.isVisited context)).length := by
    simpa using hfills.card_eq
  have hnone : passing = [] → result = [] := by
    rintro rfl
    rw [List.filter_nil, List.length_nil, Nat.min_zero] at hlength
    exact List.length_eq_zero_iff.mp hlength
  refine ⟨?_, fun r hr => ?_, hlength, fun hprobe => ?_,
    fun memory inputChunks hperm chunks s hrun => ?_, fun _ => wellFounded_stepsFrom⟩
  · exact Multiset.coe_nodup.mp (Multiset.nodup_of_le hle (hnodup.filter _))
  · exact List.mem_filter.mp (Multiset.mem_of_le hle (Multiset.mem_coe.mpr hr))
  · rw [hlength, List.filter_eq_self.mpr (hall hprobe)]
  · have hreturns' : scan.SearchReturns H context (sunkRowIds inputChunks) result :=
      fun rowIdVectors hvectors => hreturns rowIdVectors (hvectors.trans hperm)
    have hreached := reached_of_run hreturns'
      (fun hempty => hnone (hperm.symm.trans (List.Perm.of_eq hempty)).eq_nil) hrun
    exact ⟨hreached.paged, hreached.flatten_eq, hreached.exists_step hreturns'⟩

theorem emitsPassing_of_measured {M : Type} [AddCommMonoid M] {ctx : BuildContext K E}
    {Q : QuantizationOf K E D} {buffer : EmbeddingBuffer K}
    (hindex : scan.index.SetUpWith ctx Q buffer)
    (hM : ∀ S ∈ scan.index.searcher, Measured S.pdxData M) (hk : 0 < scan.k)
    {passing : List Nat} (hnodup : passing.Nodup)
    (hrows : ∀ r ∈ passing, r ∈ CreateIndex.bufferedRowIds buffer)
    (hlt : ∀ r ∈ passing, r < 2 ^ 32) : ∃ result, scan.EmitsPassing H context passing result := by
  obtain ⟨result, hreturns, hfills⟩ := hindex.filteredSearch_fills H hM hnodup hrows hlt context
    scan.queryEmbedding hk scan.nProbe
  exact ⟨result, emitsPassing_of_fills hnodup
    (fun hprobe r hr => hindex.isVisited_of_nProbe context _ hprobe (hrows r hr)) hreturns hfills⟩

section Main

variable {K : Type} [Field K] [LinearOrder K] [FloorRing K]

/-- F32 and U8, with any pruner. -/
theorem emitsPassing (H : Type) [Heap H K] {ctx : BuildContext K K}
    {scan : GlobalFilteredScan K K (ExactFloat K)} {buffer : EmbeddingBuffer K}
    (hindex : scan.index.SetUpWith ctx quantizationF32 buffer) (hk : 0 < scan.k)
    {passing : List Nat} (hnodup : passing.Nodup)
    (hrows : ∀ r ∈ passing, r ∈ CreateIndex.bufferedRowIds buffer) (hlt : ∀ r ∈ passing, r < 2 ^ 32)
    (context : SearchContext K (ExactFloat K)) {ctx' : BuildContext K UInt8} {maxValue : UInt8}
    {scan' : GlobalFilteredScan K UInt8 Nat} {buffer' : EmbeddingBuffer K}
    (hindex' : scan'.index.SetUpWith ctx' (quantizationU8 maxValue) buffer')
    (hdims : scan'.index.numDimensions ≤ pdxMaxDims) (hk' : 0 < scan'.k)
    {passing' : List Nat} (hnodup' : passing'.Nodup)
    (hrows' : ∀ r ∈ passing', r ∈ CreateIndex.bufferedRowIds buffer')
    (hlt' : ∀ r ∈ passing', r < 2 ^ 32) (context' : SearchContext K Nat) :
    (∃ result, scan.EmitsPassing H context passing result) ∧
      ∃ result', scan'.EmitsPassing H context' passing' result' := by
  constructor
  · refine emitsPassing_of_measured (M := K) hindex (fun S hS => ?_) hk hnodup hrows hlt
    obtain ⟨S', hS', hsame, -⟩ := hindex.exists_rowsInSlots
    obtain rfl := Option.some.inj (hS'.symm.trans hS)
    exact measured_f32 (congrArg IndexPDXIVF.quantization hsame.pdxData_eq)
  · refine emitsPassing_of_measured (M := Nat) hindex' (fun S hS => ?_) hk' hnodup' hrows' hlt'
    obtain ⟨S', hS', hsame, -⟩ := hindex'.exists_rowsInSlots
    obtain rfl := Option.some.inj (hS'.symm.trans hS)
    rw [hsame.pdxData_eq]
    exact measured_u8 rfl hdims

/-- Rows 0 and 1 in an index of dimension 1; the filter lets both through, one is to be found. -/
theorem emitsPassing_twoRows :
    (∃ result, (GlobalFilteredScan.mk 1 (fun _ => 0) 0 ((PDXearchWrapperGlobal.new
        ⟨1, false, 0, fun _ => 1⟩ 2).setUpGlobalIndex (.roundRobin Rat Rat) quantizationF32 id
          (fun e => (e : Rat)) 2)).EmitsPassing (SortedQueue (KNNCandidate.distance (K := Rat)))
      ⟨StdSort.insertion, id, fun _ => 0, .const (ofReal 0)⟩
      [1, 0] result) ∧
    ∃ result', (GlobalFilteredScan.mk 1 (fun _ => 0) 0 ((PDXearchWrapperGlobal.new
        ⟨1, false, 0, fun _ => 1⟩ 2).setUpGlobalIndex (.roundRobin Rat UInt8) (quantizationU8 255) id
          (fun e => (e : Rat)) 2)).EmitsPassing (SortedQueue (KNNCandidate.distance (K := Rat)))
      ⟨StdSort.insertion, id, fun _ => 0, .const 0⟩ [1, 0] result' :=
  emitsPassing _
    (PDXearchWrapperGlobal.setUpWith_setUpGlobalIndex _ ⟨2, fun e => (e : Rat), id⟩
      (fun _ _ _ _ h => h) (BuildContext.roundRobin_inRange _ 2 (by decide +kernel)))
    one_pos (by decide) (by decide) (by decide) _
    (PDXearchWrapperGlobal.setUpWith_setUpGlobalIndex _ ⟨2, fun e => (e : Rat), id⟩
      (fun _ _ _ _ h => h) (BuildContext.roundRobin_inRange _ 2 (by decide +kernel)))
    (by decide) one_pos (by decide) (by decide) (by decide) _

end Main

end GlobalFilteredScan

end PDXearch
