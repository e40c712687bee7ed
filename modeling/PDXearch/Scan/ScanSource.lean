import PDXearch.Scan.LosslessScan
import PDXearch.Lib.Paging

/-!
# The source of the parallel index scan

`PhysicalPDXearchIndexScan::GetData`. The first call schedules the search event; a call that finds
the search incomplete blocks, and `FinishEvent` wakes the blocked calls up. `search_started` and
`search_completed` are atomic, everything else is read and written under the lock of the source
state. A step of the machine below is one access to a shared variable, so that the runs are the
interleavings of the calls of any number of threads with each other, with the search tasks and with
`FinishEvent`.
-/

namespace PDXearch

open Lib ExactFloat

/-- `STANDARD_VECTOR_SIZE` -/
def standardVectorSize : Nat := 2048

/-- `SourceResultType` -/
inductive SourceResultType
  | haveMoreOutput
  | finished
  | blocked

/-- The row ids that one call of `GetData` emits. -/
def outputChunk (pdxearchRowIds : List Nat) (pdxearchRowIdsIdx : Nat) : List Nat :=
  let numResultsToEmit := min standardVectorSize (pdxearchRowIds.length - pdxearchRowIdsIdx)
  (pdxearchRowIds.drop pdxearchRowIdsIdx).take numResultsToEmit

theorem outputChunk_eq_page (rowIds : List Nat) (idx : Nat) :
    outputChunk rowIds idx = page standardVectorSize rowIds idx := by
  rw [outputChunk, page, ← List.length_drop, ← List.take_eq_take_min]

/-- Where a thread stands in its next call of `GetData`; a finished one makes no more calls. -/
inductive GetDataState
  | exchange
  | schedule
  | lock
  | readCompleted
  | block
  | emit
  | blocked
  | finished
  deriving DecidableEq

/-- The thread holds the lock of the source state. -/
def GetDataState.HoldsLock : GetDataState → Prop
  | readCompleted | block | emit => True
  | exchange | schedule | lock | blocked | finished => False

/-- Where the search event stands: its tasks run, and then the statements of `FinishEvent`. -/
inductive SearchEventState (K H : Type) (g : Nat)
  | tasks (pool : Pool H (Fin g) (QueueOp ThresholdRead (KNNCandidate K) Nat)
      (QueueOp.Res (ExactFloat K)) Unit)
  | complete
  | lock
  | unblockTasks
  | finished

/-- `PDXearchScanGlobalSourceState`, with who holds its lock, and where the event and the threads
stand. -/
structure ScanSourceState (K H : Type) (g threads : Nat) where
  searchStarted : Bool
  searchCompleted : Bool
  pdxearchRowIds : Option (List Nat)
  pdxearchRowIdsIdx : Nat
  blockedTasks : List (Fin threads)
  lockHolder : Option (Option (Fin threads))
  event : Option (SearchEventState K H g)
  getData : Fin threads → GetDataState

namespace ScanSourceState

variable {K H : Type} {g threads : Nat} {s s' : ScanSourceState K H g threads}

/-- Thread `i` goes on to `next`. -/
def goTo (s : ScanSourceState K H g threads) (i : Fin threads) (next : GetDataState) :
    ScanSourceState K H g threads :=
  { s with getData := Function.update s.getData i next }

/-- `GetGlobalSourceState` -/
def getGlobalSourceState (K H : Type) (g threads : Nat) : ScanSourceState K H g threads where
  searchStarted := false
  searchCompleted := false
  pdxearchRowIds := none
  pdxearchRowIdsIdx := 0
  blockedTasks := []
  lockHolder := none
  event := none
  getData _ := .exchange

/-- `UnblockTasks`: the blocked calls are made again. -/
def unblockTasks (s : ScanSourceState K H g threads) : ScanSourceState K H g threads :=
  { s with
    getData := fun i => if i ∈ s.blockedTasks then .exchange else s.getData i
    blockedTasks := [] }

/-! ## The search is scheduled once -/

/-- At most one call is about to schedule the event, and one is when the search has been started
but has no event. -/
structure ScheduledOnce (s : ScanSourceState K H g threads) : Prop where
  called : ∀ i, s.getData i ≠ .exchange → s.searchStarted = true
  started : s.event ≠ none → s.searchStarted = true
  scheduling : ∀ i, s.getData i = .schedule → s.event = none ∧
    ∀ j, s.getData j = .schedule → j = i
  exists_scheduling : s.searchStarted = true → s.event = none → ∃ i, s.getData i = .schedule

namespace ScheduledOnce

theorem start : (getGlobalSourceState K H g threads).ScheduledOnce where
  called _ h := absurd rfl h
  started h := absurd rfl h
  scheduling _ h := by cases h
  exists_scheduling h := by cases h

/-- Only the calls before and at the event's scheduling matter. -/
theorem congr (h : s.ScheduledOnce) (hstarted : s'.searchStarted = s.searchStarted)
    (hevent : s'.event = none ↔ s.event = none)
    (hcalled : ∀ i, s'.getData i ≠ .exchange → s.searchStarted = true)
    (hschedule : ∀ i, s'.getData i = .schedule ↔ s.getData i = .schedule) :
    s'.ScheduledOnce where
  called i hi := hstarted.trans (hcalled i hi)
  started hne := hstarted.trans (h.started fun hnone => hne (hevent.mpr hnone))
  scheduling i hi := by
    obtain ⟨hnone, hall⟩ := h.scheduling i ((hschedule i).mp hi)
    exact ⟨hevent.mpr hnone, fun j hj => hall j ((hschedule j).mp hj)⟩
  exists_scheduling hs hnone := by
    obtain ⟨i, hi⟩ := h.exists_scheduling (hstarted ▸ hs) (hevent.mp hnone)
    exact ⟨i, (hschedule i).mpr hi⟩

/-- A thread past the event's scheduling moves on. -/
theorem moves (h : s.ScheduledOnce) {i : Fin threads} {old new : GetDataState}
    (hi : s.getData i = old) (hgetData : s'.getData = Function.update s.getData i new)
    (hold : old ≠ .exchange ∧ old ≠ .schedule) (hnew : new ≠ .schedule)
    (hstarted : s'.searchStarted = s.searchStarted) (hevent : s'.event = s.event) :
    s'.ScheduledOnce := by
  refine h.congr hstarted (by rw [hevent]) ?_ ?_
  · exact fun _ _ => h.called i (hi ▸ hold.1)
  · intro j
    rw [hgetData, Function.update_apply]
    by_cases hji : j = i
    · rw [if_pos hji, hji, hi]
      exact iff_of_false hnew hold.2
    · rw [if_neg hji]

end ScheduledOnce

/-! ## The lock -/

/-- The lock is held by whoever stands in its critical section. -/
structure Locked (s : ScanSourceState K H g threads) : Prop where
  holdsLock : ∀ i, (s.getData i).HoldsLock ↔ s.lockHolder = some (some i)
  unblocking : s.event = some .unblockTasks ↔ s.lockHolder = some none

namespace Locked

theorem start : (getGlobalSourceState K H g threads).Locked where
  holdsLock _ := iff_of_false id nofun
  unblocking := iff_of_false nofun nofun

theorem eq_of_holdsLock (h : s.Locked) {i j : Fin threads} (hi : (s.getData i).HoldsLock)
    (hj : (s.getData j).HoldsLock) : i = j := by
  have heq := ((h.holdsLock i).mp hi).symm.trans ((h.holdsLock j).mp hj)
  exact Option.some.inj (Option.some.inj heq)

/-- A thread moves on without the lock, or with it to a state of the critical section. -/
theorem moves (h : s.Locked) {i : Fin threads} {old new : GetDataState}
    (hi : s.getData i = old) (hgetData : s'.getData = Function.update s.getData i new)
    (hholds : new.HoldsLock ↔ old.HoldsLock) (hlock : s'.lockHolder = s.lockHolder)
    (hevent : s'.event = some .unblockTasks ↔ s.event = some .unblockTasks) : s'.Locked where
  holdsLock j := by
    rw [hgetData, hlock, ← h.holdsLock j, Function.update_apply]
    by_cases hji : j = i
    · rw [if_pos hji, hji, hi, hholds]
    · rw [if_neg hji]
  unblocking := by rw [hevent, hlock, h.unblocking]

theorem acquire (h : s.Locked) {i : Fin threads} {new : GetDataState} (hfree : s.lockHolder = none)
    (hgetData : s'.getData = Function.update s.getData i new) (hholds : new.HoldsLock)
    (hlock : s'.lockHolder = some (some i)) (hevent : s'.event = s.event) : s'.Locked where
  holdsLock j := by
    rw [hgetData, hlock, Function.update_apply]
    by_cases hji : j = i
    · rw [if_pos hji, hji]
      exact iff_of_true hholds rfl
    · rw [if_neg hji, h.holdsLock j, hfree]
      exact iff_of_false nofun fun heq => hji (Option.some.inj (Option.some.inj heq)).symm
  unblocking := by
    rw [hevent, h.unblocking, hfree, hlock]
    exact iff_of_false nofun nofun

theorem release (h : s.Locked) {i : Fin threads} {old new : GetDataState}
    (hi : s.getData i = old) (hold : old.HoldsLock)
    (hgetData : s'.getData = Function.update s.getData i new) (hnew : ¬ new.HoldsLock)
    (hlock : s'.lockHolder = none) (hevent : s'.event = s.event) : s'.Locked where
  holdsLock j := by
    rw [hgetData, hlock, Function.update_apply]
    by_cases hji : j = i
    · rw [if_pos hji]
      exact iff_of_false hnew nofun
    · rw [if_neg hji]
      exact iff_of_false (fun hj => hji (h.eq_of_holdsLock hj (hi ▸ hold))) nofun
  unblocking := by
    have hholder := (h.holdsLock i).mp (hi ▸ hold)
    rw [hevent, h.unblocking, hholder, hlock]
    exact iff_of_false nofun nofun

end Locked

/-! ## Blocked calls are woken up -/

/-- Before `FinishEvent` has unblocked the tasks they may be blocked; a call that has found the
search incomplete holds the lock that `FinishEvent` needs for that. -/
structure Woken (s : ScanSourceState K H g threads) : Prop where
  completed : s.searchCompleted = true ↔
    s.event = some .lock ∨ s.event = some .unblockTasks ∨ s.event = some .finished
  mem_blockedTasks : ∀ i, i ∈ s.blockedTasks ↔ s.getData i = .blocked
  block : ∀ i, s.getData i = .block → s.event ≠ some .finished
  blockedTasks_eq : s.event = some .finished → s.blockedTasks = []
  emit : ∀ i, s.getData i = .emit → s.searchCompleted = true

namespace Woken

theorem start : (getGlobalSourceState K H g threads).Woken where
  completed := iff_of_false nofun (by rintro (h | h | h) <;> cases h)
  mem_blockedTasks _ := iff_of_false nofun nofun
  block _ h := by cases h
  blockedTasks_eq h := by cases h
  emit _ h := by cases h

/-- A thread that is not blocked moves on to a state in which it is not blocked. -/
theorem moves (h : s.Woken) {i : Fin threads} {old new : GetDataState} (hi : s.getData i = old)
    (hgetData : s'.getData = Function.update s.getData i new)
    (hblocked : old ≠ .blocked ∧ new ≠ .blocked) (hevent : s'.event = s.event)
    (hcompleted : s'.searchCompleted = s.searchCompleted)
    (hblockedTasks : s'.blockedTasks = s.blockedTasks)
    (hblock : new = .block → s.event ≠ some .finished)
    (hemit : new = .emit → s.searchCompleted = true) : s'.Woken where
  completed := by rw [hcompleted, hevent, h.completed]
  mem_blockedTasks j := by
    rw [hblockedTasks, h.mem_blockedTasks, hgetData, Function.update_apply]
    by_cases hji : j = i
    · rw [if_pos hji, hji, hi]
      exact iff_of_false hblocked.1 hblocked.2
    · rw [if_neg hji]
  block j hj := by
    rw [hgetData, Function.update_apply] at hj
    rw [hevent]
    by_cases hji : j = i
    · exact hblock (by rwa [if_pos hji] at hj)
    · exact h.block j (by rwa [if_neg hji] at hj)
  blockedTasks_eq hfinished := hblockedTasks.trans (h.blockedTasks_eq (hevent ▸ hfinished))
  emit j hj := by
    rw [hgetData, Function.update_apply] at hj
    rw [hcompleted]
    by_cases hji : j = i
    · exact hemit (by rwa [if_pos hji] at hj)
    · exact h.emit j (by rwa [if_neg hji] at hj)

/-- The event goes on, and the threads wait. -/
theorem eventGoesOn (h : s.Woken) (hgetData : s'.getData = s.getData)
    (hblockedTasks : s'.blockedTasks = s.blockedTasks) (hevent : s'.event ≠ some .finished)
    (hcompleted : s'.searchCompleted = true ↔ s'.event = some .lock ∨ s'.event = some .unblockTasks)
    (hmono : s.searchCompleted = true → s'.searchCompleted = true) : s'.Woken where
  completed := by
    rw [hcompleted]
    exact or_congr_right (or_iff_left hevent).symm
  mem_blockedTasks i := by rw [hblockedTasks, hgetData, h.mem_blockedTasks]
  block _ _ := hevent
  blockedTasks_eq hfinished := absurd hfinished hevent
  emit i hi := hmono (h.emit i (hgetData ▸ hi))

/-- A call that has found the search incomplete blocks. -/
theorem blocks (h : s.Woken) {i : Fin threads} (hi : s.getData i = .block)
    (hgetData : s'.getData = Function.update s.getData i .blocked) (hevent : s'.event = s.event)
    (hcompleted : s'.searchCompleted = s.searchCompleted)
    (hblockedTasks : s'.blockedTasks = s.blockedTasks ++ [i]) : s'.Woken where
  completed := by rw [hcompleted, hevent, h.completed]
  mem_blockedTasks j := by
    rw [hblockedTasks, List.mem_append, List.mem_singleton, h.mem_blockedTasks, hgetData,
      Function.update_apply]
    by_cases hji : j = i
    · rw [if_pos hji]
      exact iff_of_true (Or.inr hji) rfl
    · rw [if_neg hji, or_iff_left hji]
  block j hj := by
    rw [hgetData, Function.update_apply] at hj
    by_cases hji : j = i
    · rw [if_pos hji] at hj
      cases hj
    · rw [if_neg hji] at hj
      exact hevent ▸ h.block j hj
  -- the event cannot have unblocked the tasks yet: it would have needed the lock
  blockedTasks_eq hfinished := absurd (hevent ▸ hfinished) (h.block i hi)
  emit j hj := by
    rw [hgetData, Function.update_apply] at hj
    by_cases hji : j = i
    · rw [if_pos hji] at hj
      cases hj
    · rw [if_neg hji] at hj
      exact hcompleted ▸ h.emit j hj

/-- `FinishEvent` unblocks the tasks while no call holds the lock. -/
theorem unblocks (h : s.Woken) (hl : s.Locked) (hevent : s.event = some .unblockTasks) :
    ({ s.unblockTasks with
        lockHolder := none
        event := some .finished } : ScanSourceState K H g threads).Woken where
  completed := iff_of_true (h.completed.mpr (Or.inr (Or.inl hevent))) (Or.inr (Or.inr rfl))
  mem_blockedTasks i := by
    refine iff_of_false nofun fun hi => ?_
    simp only [unblockTasks, h.mem_blockedTasks] at hi
    split at hi
    · cases hi
    · contradiction
  block i hi := by
    have hblock : s.getData i = .block := by
      simp only [unblockTasks] at hi
      split at hi
      · cases hi
      · exact hi
    have hholder := (hl.holdsLock i).mp (hblock ▸ trivial)
    rw [hl.unblocking.mp hevent] at hholder
    cases hholder
  blockedTasks_eq _ := rfl
  emit i hi := by
    simp only [unblockTasks] at hi
    split at hi
    · cases hi
    · exact h.emit i hi

end Woken

end ScanSourceState

/-- What a step shows: `AddEvent` and `Schedule`, or what a call of `GetData` returns. -/
inductive ScanSourceAction (threads : Nat)
  | internal
  | addEvent
  | returned (i : Fin threads) (result : SourceResultType) (outputChunk : List Nat)

namespace ScanSourceAction

variable {threads : Nat}

def isAddEvent : ScanSourceAction threads → Bool
  | addEvent => true
  | internal | returned _ _ _ => false

/-- The chunk that the operator gives to the next one. -/
def output : ScanSourceAction threads → Option (List Nat)
  | returned _ .haveMoreOutput outputChunk => some outputChunk
  | internal | addEvent | returned _ .finished _ | returned _ .blocked _ => none

end ScanSourceAction

namespace ParallelScan

variable {K E D : Type} [Zero E] [Field K] [LinearOrder K] [LinearOrder D] {g : Nat}
  (scan : ParallelScan K E D g) (std : StdSort) (H : Type) [Heap H K] (arrays : Fin g → ProbeState D)
  {threads : Nat}

variable {H}

/-- A step of a call of `GetData`, of a search task or of `FinishEvent`, which the last task to
finish calls. -/
inductive SourceStep : ScanSourceState K H g threads → ScanSourceAction threads →
    ScanSourceState K H g threads → Prop
  | exchange {s : ScanSourceState K H g threads} {i : Fin threads} (h : s.getData i = .exchange) :
      SourceStep s .internal { s.goTo i (if s.searchStarted then .lock else .schedule) with
        searchStarted := true }
  | schedule {s : ScanSourceState K H g threads} {i : Fin threads} (h : s.getData i = .schedule) :
      SourceStep s .addEvent { s.goTo i .lock with
        event := some (.tasks (scan.schedule std H arrays)) }
  | lock {s : ScanSourceState K H g threads} {i : Fin threads} (h : s.getData i = .lock)
      (hfree : s.lockHolder = none) :
      SourceStep s .internal { s.goTo i .readCompleted with lockHolder := some (some i) }
  | readCompleted {s : ScanSourceState K H g threads} {i : Fin threads}
      (h : s.getData i = .readCompleted) :
      SourceStep s .internal (s.goTo i (if s.searchCompleted then .emit else .block))
  | block {s : ScanSourceState K H g threads} {i : Fin threads} (h : s.getData i = .block) :
      SourceStep s (.returned i .blocked []) { s.goTo i .blocked with
        blockedTasks := s.blockedTasks ++ [i]
        lockHolder := none }
  | emit {s : ScanSourceState K H g threads} {i : Fin threads} {rowIds : List Nat}
      (h : s.getData i = .emit) (hrowIds : s.pdxearchRowIds = some rowIds)
      (hchunk : outputChunk rowIds s.pdxearchRowIdsIdx ≠ []) :
      SourceStep s (.returned i .haveMoreOutput (outputChunk rowIds s.pdxearchRowIdsIdx))
        { s.goTo i .exchange with
          pdxearchRowIdsIdx :=
            s.pdxearchRowIdsIdx + (outputChunk rowIds s.pdxearchRowIdsIdx).length
          lockHolder := none }
  | finish {s : ScanSourceState K H g threads} {i : Fin threads} {rowIds : List Nat}
      (h : s.getData i = .emit) (hrowIds : s.pdxearchRowIds = some rowIds)
      (hchunk : outputChunk rowIds s.pdxearchRowIdsIdx = []) :
      SourceStep s (.returned i .finished []) { s.goTo i .finished with lockHolder := none }
  | task {s : ScanSourceState K H g threads} {p q}
      {e : Fin g × Client.Event (QueueOp ThresholdRead (KNNCandidate K) Nat)
        (QueueOp.Res (ExactFloat K))}
      (h : s.event = some (.tasks p)) (hstep : Pool.Step (queueObj scan.k) p e q) :
      SourceStep s .internal { s with event := some (.tasks q) }
  | storeRowIds {s : ScanSourceState K H g threads} {p} (h : s.event = some (.tasks p))
      (hfinished : p.Finished) (hlast : 0 < g) :
      SourceStep s .internal { s with
        pdxearchRowIds := some ((scan.finishEvent p.shared).map KNNCandidate.index)
        event := some .complete }
  | complete {s : ScanSourceState K H g threads} (h : s.event = some .complete) :
      SourceStep s .internal { s with
        searchCompleted := true
        event := some .lock }
  | lockEvent {s : ScanSourceState K H g threads} (h : s.event = some .lock)
      (hfree : s.lockHolder = none) :
      SourceStep s .internal { s with
        lockHolder := some none
        event := some .unblockTasks }
  | unblockTasks {s : ScanSourceState K H g threads} (h : s.event = some .unblockTasks) :
      SourceStep s .internal { s.unblockTasks with
        lockHolder := none
        event := some .finished }

/-- A finite sequence of steps from the state that `GetGlobalSourceState` returns. -/
inductive SourceRun : List (ScanSourceAction threads) → ScanSourceState K H g threads → Prop
  | start : SourceRun [] (.getGlobalSourceState K H g threads)
  | snoc {tr : List (ScanSourceAction threads)} {s s' : ScanSourceState K H g threads}
      {a : ScanSourceAction threads} (h : SourceRun tr s)
      (hstep : scan.SourceStep std arrays s a s') : SourceRun (tr ++ [a]) s'

variable {scan : ParallelScan K E D g} {std : StdSort} {arrays : Fin g → ProbeState D}
  {tr : List (ScanSourceAction threads)} {s s' : ScanSourceState K H g threads}
  {a : ScanSourceAction threads}

/-! ## What a step keeps -/

namespace SourceStep

theorem scheduledOnce (hstep : scan.SourceStep std arrays s a s') (h : s.ScheduledOnce)
    (hw : s.Woken) : s'.ScheduledOnce := by
  cases hstep with
  | @exchange i hi =>
    by_cases hstarted : s.searchStarted = true
    · refine h.congr hstarted.symm Iff.rfl (fun _ _ => hstarted) fun j => ?_
      rw [if_pos hstarted]
      show Function.update s.getData i .lock j = .schedule ↔ s.getData j = .schedule
      by_cases hji : j = i
      · rw [hji, Function.update_self, hi]
        exact iff_of_false nofun nofun
      · rw [Function.update_of_ne hji]
    · have hnone : s.event = none := by
        by_contra hne
        exact hstarted (h.started hne)
      have hall : ∀ j, s.getData j ≠ .schedule := fun j hj =>
        hstarted (h.called j (by rw [hj]; nofun))
      rw [if_neg hstarted]
      refine ⟨fun _ _ => rfl, fun _ => rfl, ?_, fun _ _ => ⟨i, Function.update_self _ _ _⟩⟩
      have honly : ∀ j, Function.update s.getData i .schedule j = .schedule → j = i := by
        intro j hj
        by_contra hji
        rw [Function.update_of_ne hji] at hj
        exact hall j hj
      intro j hj
      obtain rfl := honly j hj
      exact ⟨hnone, honly⟩
  | @schedule i hi =>
    have hall := (h.scheduling i hi).2
    refine ⟨fun _ _ => h.called i (by rw [hi]; nofun), fun _ => h.called i (by rw [hi]; nofun),
      ?_, fun _ hnone => by cases hnone⟩
    intro j hj
    by_cases hji : j = i
    · subst hji
      exact absurd ((Function.update_self _ _ _).symm.trans hj) nofun
    · exact absurd (hall j ((Function.update_of_ne hji _ _).symm.trans hj)) hji
  | lock hi _ => exact h.moves hi rfl ⟨nofun, nofun⟩ nofun rfl rfl
  | readCompleted hi =>
    refine h.moves hi rfl ⟨nofun, nofun⟩ ?_ rfl rfl
    split <;> nofun
  | block hi => exact h.moves hi rfl ⟨nofun, nofun⟩ nofun rfl rfl
  | emit hi _ _ => exact h.moves hi rfl ⟨nofun, nofun⟩ nofun rfl rfl
  | finish hi _ _ => exact h.moves hi rfl ⟨nofun, nofun⟩ nofun rfl rfl
  | task he _ => exact h.congr rfl (by simp [he]) h.called fun _ => Iff.rfl
  | storeRowIds he _ _ => exact h.congr rfl (by simp [he]) h.called fun _ => Iff.rfl
  | complete he => exact h.congr rfl (by simp [he]) h.called fun _ => Iff.rfl
  | lockEvent he _ => exact h.congr rfl (by simp [he]) h.called fun _ => Iff.rfl
  | unblockTasks he =>
    refine h.congr rfl (by simp [he]) (fun _ _ => h.started (by simp [he])) fun i => ?_
    simp only [ScanSourceState.unblockTasks, hw.mem_blockedTasks]
    split
    next hblocked => exact iff_of_false nofun (by rw [hblocked]; nofun)
    next => exact Iff.rfl

theorem locked (hstep : scan.SourceStep std arrays s a s') (h : s.Locked)
    (hs : s.ScheduledOnce) : s'.Locked := by
  cases hstep with
  | exchange hi =>
    refine h.moves hi rfl (iff_of_false ?_ id) rfl Iff.rfl
    split <;> exact id
  | schedule hi =>
    refine h.moves hi rfl Iff.rfl rfl ?_
    rw [(hs.scheduling _ hi).1]
    exact iff_of_false nofun nofun
  | lock hi hfree => exact h.acquire hfree rfl trivial rfl rfl
  | readCompleted hi =>
    refine h.moves hi rfl (iff_of_true ?_ trivial) rfl Iff.rfl
    split <;> exact trivial
  | block hi => exact h.release hi trivial rfl id rfl rfl
  | emit hi _ _ => exact h.release hi trivial rfl id rfl rfl
  | finish hi _ _ => exact h.release hi trivial rfl id rfl rfl
  | task he _ => exact ⟨h.holdsLock, by simpa [he] using h.unblocking⟩
  | storeRowIds he _ _ => exact ⟨h.holdsLock, by simpa [he] using h.unblocking⟩
  | complete he => exact ⟨h.holdsLock, by simpa [he] using h.unblocking⟩
  | lockEvent he hfree =>
    refine ⟨fun i => ?_, iff_of_true rfl rfl⟩
    rw [h.holdsLock, hfree]
    exact iff_of_false nofun nofun
  | unblockTasks he =>
    refine ⟨fun i => iff_of_false ?_ nofun, iff_of_false nofun nofun⟩
    have hholder := h.unblocking.mp he
    simp only [ScanSourceState.unblockTasks]
    split
    · exact id
    · rw [h.holdsLock, hholder]
      nofun

theorem woken (hstep : scan.SourceStep std arrays s a s') (h : s.Woken) (hs : s.ScheduledOnce)
    (hl : s.Locked) : s'.Woken := by
  cases hstep with
  | exchange hi =>
    refine h.moves hi rfl ⟨nofun, ?_⟩ rfl rfl rfl ?_ ?_
    all_goals split <;> nofun
  | schedule hi =>
    obtain ⟨hnone, -⟩ := hs.scheduling _ hi
    have hmoved : (s.goTo _ .lock).Woken :=
      h.moves hi rfl ⟨nofun, nofun⟩ rfl rfl rfl nofun nofun
    have hincomplete : s.searchCompleted ≠ true := by
      rw [ne_eq, h.completed, hnone]
      simp
    refine hmoved.eventGoesOn rfl rfl nofun (iff_of_false hincomplete ?_) id
    simp
  | lock hi _ => exact h.moves hi rfl ⟨nofun, nofun⟩ rfl rfl rfl nofun nofun
  | readCompleted hi =>
    refine h.moves hi rfl ⟨nofun, ?_⟩ rfl rfl rfl ?_ ?_
    · split <;> nofun
    · split
      · nofun
      next hincomplete =>
        intro _ hfinished
        exact hincomplete (h.completed.mpr (Or.inr (Or.inr hfinished)))
    · split
      next hcompleted => exact fun _ => hcompleted
      · nofun
  | block hi => exact h.blocks hi rfl rfl rfl rfl
  | emit hi _ _ => exact h.moves hi rfl ⟨nofun, nofun⟩ rfl rfl rfl nofun nofun
  | finish hi _ _ => exact h.moves hi rfl ⟨nofun, nofun⟩ rfl rfl rfl nofun nofun
  | task he _ => exact h.eventGoesOn rfl rfl nofun (by simp [h.completed, he]) id
  | storeRowIds he _ _ => exact h.eventGoesOn rfl rfl nofun (by simp [h.completed, he]) id
  | complete he => exact h.eventGoesOn rfl rfl nofun (by simp) fun _ => rfl
  | lockEvent he _ => exact h.eventGoesOn rfl rfl nofun (by simp [h.completed, he]) id
  | unblockTasks he => exact h.unblocks hl he

end SourceStep

end ParallelScan

end PDXearch
