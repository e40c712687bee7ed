import PDXearch.Scan.ScanSource

/-!
# Runs of the source of the parallel index scan

In every run the search is scheduled once, no call stays blocked once `FinishEvent` has ended, and
the machine neither gets stuck nor runs forever: every thread is told that the scan is finished.
What the calls emit until then are the row ids of one complete search, in order and in full chunks.
-/

namespace PDXearch

open Lib ExactFloat

namespace ScanSourceState

variable {K H : Type} {g threads : Nat} {s s' : ScanSourceState K H g threads}

/-- The threads weighed by where they stand. -/
def weight (s : ScanSourceState K H g threads) (w : GetDataState → Nat) : Nat :=
  ∑ i, w (s.getData i)

theorem weight_moves {i : Fin threads} {old new : GetDataState} (w : GetDataState → Nat)
    (hi : s.getData i = old) (hgetData : s'.getData = Function.update s.getData i new) :
    s'.weight w + w old = s.weight w + w new := by
  have hsplit : ∀ f : Fin threads → GetDataState,
      ∑ j, w (f j) = w (f i) + ∑ j ∈ Finset.univ.erase i, w (f j) := fun f =>
    (Finset.add_sum_erase _ (fun j => w (f j)) (Finset.mem_univ i)).symm
  have hrest : ∑ j ∈ Finset.univ.erase i, w (s'.getData j) =
      ∑ j ∈ Finset.univ.erase i, w (s.getData j) := by
    refine Finset.sum_congr rfl fun j hj => ?_
    rw [hgetData, Function.update_of_ne (Finset.ne_of_mem_erase hj)]
  have hnew : s'.getData i = new := by rw [hgetData, Function.update_self]
  rw [weight, weight, hsplit, hsplit s.getData, hrest, hi, hnew]
  omega

/-- How far a call is from blocking or finishing. -/
def remainingSteps : GetDataState → Nat
  | .exchange => 5
  | .schedule => 4
  | .lock => 3
  | .readCompleted => 2
  | .block | .emit => 1
  | .blocked | .finished => 0

def aboutToSchedule (state : GetDataState) : Nat := if state = .schedule then 1 else 0

/-- Twice for the first call, which has not been made, and once for every call that is about to
schedule the search. -/
def unscheduled (s : ScanSourceState K H g threads) : Nat :=
  (if s.searchStarted then 0 else 2) + s.weight aboutToSchedule

/-- The statements that the event has not executed. -/
def remainingEvent (s : ScanSourceState K H g threads) : Nat :=
  match s.event with
  | none => 5
  | some (.tasks _) => 4
  | some .complete => 3
  | some .lock => 2
  | some .unblockTasks => 1
  | some .finished => 0

/-- The row ids that have not been emitted. -/
def remainingRowIds (s : ScanSourceState K H g threads) : Nat :=
  (s.pdxearchRowIds.getD []).length - s.pdxearchRowIdsIdx

end ScanSourceState

namespace ParallelScan

variable {K E D : Type} [Zero E] [Field K] [LinearOrder K] [LinearOrder D] {g : Nat}
  {scan : ParallelScan K E D g} {std : StdSort} {H : Type} [Heap H K] {arrays : Fin g → ProbeState D}
  {threads : Nat} {tr : List (ScanSourceAction threads)} {s s' : ScanSourceState K H g threads}
  {a : ScanSourceAction threads}

theorem SourceRun.coordinated (hrun : scan.SourceRun std arrays tr s) :
    s.ScheduledOnce ∧ s.Locked ∧ s.Woken := by
  induction hrun with
  | start => exact ⟨.start, .start, .start⟩
  | snoc _ hstep ih =>
    obtain ⟨hs, hl, hw⟩ := ih
    exact ⟨hstep.scheduledOnce hs hw, hstep.locked hl hs, hstep.woken hw hs hl⟩

/-- The search event is added once, and its tasks do not run before. -/
theorem SourceRun.countP_isAddEvent (hrun : scan.SourceRun std arrays tr s) :
    tr.countP ScanSourceAction.isAddEvent = if s.event = none then 0 else 1 := by
  induction hrun with
  | start => rfl
  | @snoc tr s s' a hrun hstep ih =>
    obtain ⟨hs, -, -⟩ := hrun.coordinated
    rw [List.countP_append, ih]
    cases hstep with
    | schedule hi =>
      rw [if_pos (hs.scheduling _ hi).1]
      rfl
    | exchange | lock | readCompleted | block | emit | finish => rfl
    | task he | storeRowIds he | complete he | lockEvent he | unblockTasks he =>
      rw [he]
      rfl

/-! ## What is emitted -/

/-- The row ids that some complete run of the search tasks ends with. -/
def IsSearchResult (scan : ParallelScan K E D g) (std : StdSort) (H : Type) [Heap H K]
    (arrays : Fin g → ProbeState D) (rowIds : List Nat) : Prop :=
  ∃ tr p, Pool.Run (queueObj scan.k) (scan.schedule std H arrays) tr p ∧ p.Finished ∧
    rowIds = (scan.finishEvent p.shared).map KNNCandidate.index

/-- The chunks that the operator has given to the next one. -/
def outputs (tr : List (ScanSourceAction threads)) : List (List Nat) :=
  tr.filterMap ScanSourceAction.output

/-- The row ids are stored once a search is complete, and from then on they are emitted page by
page until a call has found nothing left. -/
structure Emitted (scan : ParallelScan K E D g) (std : StdSort) (arrays : Fin g → ProbeState D)
    (tr : List (ScanSourceAction threads)) (s : ScanSourceState K H g threads) : Prop where
  searching : ∀ p, s.event = some (.tasks p) →
    ∃ tr', Pool.Run (queueObj scan.k) (scan.schedule std H arrays) tr' p
  eq_none_iff : s.pdxearchRowIds = none ↔ s.event = none ∨ ∃ p, s.event = some (.tasks p)
  nothing : s.pdxearchRowIds = none → s.pdxearchRowIdsIdx = 0 ∧ outputs tr = [] ∧
    ∀ i, s.getData i ≠ .finished
  stored : ∀ rowIds, s.pdxearchRowIds = some rowIds → scan.IsSearchResult std H arrays rowIds ∧
    Paged standardVectorSize rowIds (outputs tr) s.pdxearchRowIdsIdx ∧
    ∀ i, s.getData i = .finished → outputChunk rowIds s.pdxearchRowIdsIdx = []

namespace Emitted

theorem start : scan.Emitted std arrays [] (.getGlobalSourceState K H g threads) where
  searching _ h := by cases h
  eq_none_iff := iff_of_true rfl (Or.inl rfl)
  nothing _ := ⟨rfl, rfl, fun _ => nofun⟩
  stored _ h := by cases h

theorem outputs_append (h : a.output = none) : outputs (tr ++ [a]) = outputs tr := by
  rw [outputs, List.filterMap_append, List.filterMap_cons_none h, List.filterMap_nil,
    List.append_nil, outputs]

/-- A step that emits nothing and tells no thread that the scan is finished. -/
theorem quiet (h : scan.Emitted std arrays tr s) (ha : a.output = none)
    (hsearching : ∀ p, s'.event = some (.tasks p) →
      ∃ tr', Pool.Run (queueObj scan.k) (scan.schedule std H arrays) tr' p)
    (hevent : (s'.event = none ∨ ∃ p, s'.event = some (.tasks p)) ↔
      s.event = none ∨ ∃ p, s.event = some (.tasks p))
    (hrowIds : s'.pdxearchRowIds = s.pdxearchRowIds)
    (hidx : s'.pdxearchRowIdsIdx = s.pdxearchRowIdsIdx)
    (hfinished : ∀ i, s'.getData i = .finished → s.getData i = .finished) :
    scan.Emitted std arrays (tr ++ [a]) s' where
  searching := hsearching
  eq_none_iff := by rw [hrowIds, hevent, h.eq_none_iff]
  nothing hnone := by
    obtain ⟨hzero, hnil, hall⟩ := h.nothing (hrowIds ▸ hnone)
    exact ⟨hidx.trans hzero, (outputs_append ha).trans hnil, fun i hi => hall i (hfinished i hi)⟩
  stored rowIds hsome := by
    obtain ⟨hresult, hpaged, hall⟩ := h.stored rowIds (hrowIds ▸ hsome)
    rw [outputs_append ha, hidx]
    exact ⟨hresult, hpaged, fun i hi => hall i (hfinished i hi)⟩

/-- A thread goes on. -/
theorem moves (h : scan.Emitted std arrays tr s) (ha : a.output = none) {i : Fin threads}
    {new : GetDataState} (hgetData : s'.getData = Function.update s.getData i new)
    (hnew : new ≠ .finished) (hevent : s'.event = s.event)
    (hrowIds : s'.pdxearchRowIds = s.pdxearchRowIds)
    (hidx : s'.pdxearchRowIdsIdx = s.pdxearchRowIdsIdx) : scan.Emitted std arrays (tr ++ [a]) s' := by
  refine h.quiet ha (hevent ▸ h.searching) (by rw [hevent]) hrowIds hidx fun j hj => ?_
  rw [hgetData, Function.update_apply] at hj
  split at hj
  · exact absurd hj hnew
  · exact hj

end Emitted

theorem SourceStep.emitted (hstep : scan.SourceStep std arrays s a s')
    (h : scan.Emitted std arrays tr s) (hs : s.ScheduledOnce) :
    scan.Emitted std arrays (tr ++ [a]) s' := by
  cases hstep with
  | exchange hi =>
    refine h.moves rfl rfl ?_ rfl rfl rfl
    split <;> nofun
  | @schedule i hi =>
    have hnone := (hs.scheduling i hi).1
    refine h.quiet rfl ?_ (iff_of_true (Or.inr ⟨_, rfl⟩) (Or.inl hnone)) rfl rfl fun j hj => ?_
    · rintro p hp
      cases hp
      exact ⟨[], .refl _⟩
    · simp only [ScanSourceState.goTo, Function.update_apply] at hj
      split at hj
      · cases hj
      · exact hj
  | lock hi _ => exact h.moves rfl rfl nofun rfl rfl rfl
  | readCompleted hi =>
    refine h.moves rfl rfl ?_ rfl rfl rfl
    split <;> nofun
  | block hi => exact h.moves rfl rfl nofun rfl rfl rfl
  | @emit i rowIds hi hrowIds hchunk =>
    obtain ⟨hresult, hpaged, hall⟩ := h.stored rowIds hrowIds
    refine ⟨h.searching, h.eq_none_iff, fun hnone => ?_, fun rowIds' hsome => ?_⟩
    · cases hrowIds.symm.trans hnone
    · cases hrowIds.symm.trans hsome
      have houtputs : outputs (tr ++ [.returned i .haveMoreOutput
          (outputChunk rowIds s.pdxearchRowIdsIdx)]) =
          outputs tr ++ [outputChunk rowIds s.pdxearchRowIdsIdx] := List.filterMap_append
      rw [houtputs]
      rw [outputChunk_eq_page] at hchunk ⊢
      refine ⟨hresult, hpaged.snoc hchunk, fun j hj => ?_⟩
      -- nobody has finished, as something was left
      simp only [ScanSourceState.goTo, Function.update_apply] at hj
      split at hj
      · cases hj
      · exact absurd (outputChunk_eq_page _ _ ▸ hall j hj) hchunk
  | @finish i rowIds hi hrowIds hchunk =>
    obtain ⟨hresult, hpaged, -⟩ := h.stored rowIds hrowIds
    refine ⟨h.searching, h.eq_none_iff, fun hnone => ?_, fun rowIds' hsome => ?_⟩
    · cases hrowIds.symm.trans hnone
    · cases hrowIds.symm.trans hsome
      rw [Emitted.outputs_append rfl]
      exact ⟨hresult, hpaged, fun _ _ => hchunk⟩
  | task he hpool =>
    refine h.quiet rfl ?_ (iff_of_true (Or.inr ⟨_, rfl⟩) (Or.inr ⟨_, he⟩)) rfl rfl fun _ => id
    rintro p hp
    cases hp
    obtain ⟨tr', hrun⟩ := h.searching _ he
    exact ⟨_, hrun.snoc hpool⟩
  | @storeRowIds p he hfinished _ =>
    obtain ⟨hzero, hnil, hall⟩ := h.nothing (h.eq_none_iff.mpr (Or.inr ⟨_, he⟩))
    refine ⟨nofun, iff_of_false nofun (by rintro (h | ⟨p, h⟩) <;> cases h), nofun,
      fun rowIds hsome => ?_⟩
    cases hsome
    obtain ⟨tr', hrun⟩ := h.searching _ he
    refine ⟨⟨tr', p, hrun, hfinished, rfl⟩, ?_, fun i hi => absurd hi (hall i)⟩
    rw [Emitted.outputs_append rfl, hnil, hzero]
    exact .nil
  | complete he | lockEvent he =>
    refine h.quiet rfl nofun (iff_of_false ?_ ?_) rfl rfl fun _ => id
    · rintro (h | ⟨p, h⟩) <;> cases h
    · rw [he]
      rintro (h | ⟨p, h⟩) <;> cases h
  | unblockTasks he =>
    refine h.quiet rfl nofun (iff_of_false ?_ ?_) rfl rfl fun i hi => ?_
    · rintro (h | ⟨p, h⟩) <;> cases h
    · rw [he]
      rintro (h | ⟨p, h⟩) <;> cases h
    · simp only [ScanSourceState.unblockTasks] at hi
      split at hi
      · cases hi
      · exact hi

theorem SourceRun.emitted (hrun : scan.SourceRun std arrays tr s) :
    scan.Emitted std arrays tr s := by
  induction hrun with
  | start => exact .start
  | snoc hrun hstep ih => exact hstep.emitted ih hrun.coordinated.1

theorem SourceRun.exists_rowIds_of_emit (hrun : scan.SourceRun std arrays tr s) {i : Fin threads}
    (hi : s.getData i = .emit) : ∃ rowIds, s.pdxearchRowIds = some rowIds := by
  obtain ⟨-, -, hw⟩ := hrun.coordinated
  have hcompleted := hw.completed.mp (hw.emit i hi)
  refine Option.ne_none_iff_exists'.mp ?_
  rw [ne_eq, hrun.emitted.eq_none_iff]
  rintro (he | ⟨p, he⟩) <;> rw [he] at hcompleted <;> simp at hcompleted

/-! ## Progress -/

/-- The holder of the lock goes on. -/
theorem SourceRun.exists_step_of_holdsLock (hrun : scan.SourceRun std arrays tr s) {i : Fin threads}
    (hi : (s.getData i).HoldsLock) : ∃ a s', scan.SourceStep std arrays s a s' := by
  generalize hstate : s.getData i = state at hi
  cases state with
  | readCompleted => exact ⟨_, _, .readCompleted hstate⟩
  | block => exact ⟨_, _, .block hstate⟩
  | emit =>
    obtain ⟨rowIds, hrowIds⟩ := hrun.exists_rowIds_of_emit hstate
    by_cases hchunk : outputChunk rowIds s.pdxearchRowIdsIdx = []
    · exact ⟨_, _, .finish hstate hrowIds hchunk⟩
    · exact ⟨_, _, .emit hstate hrowIds hchunk⟩
  | exchange | schedule | lock | blocked | finished => exact hi.elim

theorem SourceRun.free_or_exists_step (hrun : scan.SourceRun std arrays tr s) :
    s.lockHolder = none ∨ ∃ a s', scan.SourceStep std arrays s a s' := by
  obtain ⟨-, hl, -⟩ := hrun.coordinated
  match hholder : s.lockHolder with
  | none => exact Or.inl rfl
  | some none => exact Or.inr ⟨_, _, .unblockTasks (hl.unblocking.mpr hholder)⟩
  | some (some i) => exact Or.inr (hrun.exists_step_of_holdsLock ((hl.holdsLock i).mpr hholder))

/-- The event goes on until it has unblocked the tasks. -/
theorem SourceRun.exists_step_of_event (hrun : scan.SourceRun std arrays tr s) (hg : 0 < g)
    {event : SearchEventState K H g} (he : s.event = some event) (hne : event ≠ .finished) :
    ∃ a s', scan.SourceStep std arrays s a s' := by
  cases event with
  | tasks p =>
    by_cases hfinished : p.Finished
    · exact ⟨_, _, .storeRowIds he hfinished hg⟩
    · have hstep : ∃ e q, Pool.Step (queueObj scan.k) p e q := Pool.exists_step hfinished
      obtain ⟨e, q, hpool⟩ := hstep
      exact ⟨_, _, .task he hpool⟩
  | complete => exact ⟨_, _, .complete he⟩
  | lock =>
    rcases hrun.free_or_exists_step with hfree | hstep
    · exact ⟨_, _, .lockEvent he hfree⟩
    · exact hstep
  | unblockTasks => exact ⟨_, _, .unblockTasks he⟩
  | finished => exact absurd rfl hne

/-- The machine is not stuck before every thread has finished. -/
theorem SourceRun.exists_step (hrun : scan.SourceRun std arrays tr s) (hg : 0 < g)
    {i : Fin threads} (hi : s.getData i ≠ .finished) :
    ∃ a s', scan.SourceStep std arrays s a s' := by
  obtain ⟨hs, hl, hw⟩ := hrun.coordinated
  generalize hstate : s.getData i = state at hi
  cases state with
  | exchange => exact ⟨_, _, .exchange hstate⟩
  | schedule => exact ⟨_, _, .schedule hstate⟩
  | lock =>
    rcases hrun.free_or_exists_step with hfree | hstep
    · exact ⟨_, _, .lock hstate hfree⟩
    · exact hstep
  | readCompleted | block | emit =>
    exact hrun.exists_step_of_holdsLock (i := i) (hstate ▸ trivial)
  | blocked =>
    match he : s.event with
    | none =>
      obtain ⟨j, hj⟩ := hs.exists_scheduling (hs.called i (by rw [hstate]; nofun)) he
      exact ⟨_, _, .schedule hj⟩
    | some event =>
      refine hrun.exists_step_of_event hg he ?_
      rintro rfl
      have hmem := (hw.mem_blockedTasks i).mpr hstate
      rw [hw.blockedTasks_eq he] at hmem
      cases hmem
  | finished => exact absurd rfl hi

/-! ## Termination -/

/-- The tasks of the event. -/
def sourcePool (scan : ParallelScan K E D g) (std : StdSort) (arrays : Fin g → ProbeState D)
    (s : ScanSourceState K H g threads) :
    Pool H (Fin g) (QueueOp ThresholdRead (KNNCandidate K) Nat) (QueueOp.Res (ExactFloat K)) Unit :=
  match s.event with
  | some (.tasks p) => p
  | none | some .complete | some .lock | some .unblockTasks | some .finished =>
    scan.schedule std H arrays

/-- A step lets go down, in this order: the searches that may still be scheduled, the statements of
the event, the steps of the tasks, the row ids that are left, and the steps of the calls. -/
def SourceDecreases (scan : ParallelScan K E D g) (std : StdSort) (arrays : Fin g → ProbeState D)
    (s' s : ScanSourceState K H g threads) : Prop :=
  Prod.Lex (· < ·) (Prod.Lex (· < ·) (Prod.Lex
      (fun q p => ∃ e, Pool.Step (queueObj scan.k) p e q) (Prod.Lex (· < ·) (· < ·))))
    (s'.unscheduled, s'.remainingEvent, sourcePool scan std arrays s', s'.remainingRowIds,
      s'.weight ScanSourceState.remainingSteps)
    (s.unscheduled, s.remainingEvent, sourcePool scan std arrays s, s.remainingRowIds,
      s.weight ScanSourceState.remainingSteps)

theorem wellFounded_sourceDecreases :
    WellFounded (SourceDecreases scan std arrays :
      ScanSourceState K H g threads → ScanSourceState K H g threads → Prop) :=
  InvImage.wf (fun s : ScanSourceState K H g threads => (s.unscheduled, s.remainingEvent,
      sourcePool scan std arrays s, s.remainingRowIds, s.weight ScanSourceState.remainingSteps))
    (wellFounded_lt.prod_lex (wellFounded_lt.prod_lex
      (Pool.wellFounded_step.prod_lex (wellFounded_lt.prod_lex wellFounded_lt))))

/-- The event goes on, and as many searches may still be scheduled as before, or fewer. -/
theorem sourceDecreases_of_event (hunscheduled : s'.unscheduled ≤ s.unscheduled)
    (hevent : s'.remainingEvent < s.remainingEvent) : SourceDecreases scan std arrays s' s := by
  rcases Nat.lt_or_eq_of_le hunscheduled with hlt | heq
  · exact .left _ _ hlt
  · rw [SourceDecreases, heq]
    exact .right _ (.left _ _ hevent)

/-- A thread past the event's scheduling goes on. -/
theorem sourceDecreases_of_moves {i : Fin threads} {old new : GetDataState}
    (hi : s.getData i = old) (hgetData : s'.getData = Function.update s.getData i new)
    (hold : old ≠ .schedule) (hnew : new ≠ .schedule)
    (hstarted : s'.searchStarted = s.searchStarted) (hevent : s'.event = s.event)
    (hless : s'.remainingRowIds < s.remainingRowIds ∨ s'.remainingRowIds = s.remainingRowIds ∧
      ScanSourceState.remainingSteps new < ScanSourceState.remainingSteps old) :
    SourceDecreases scan std arrays s' s := by
  have hunscheduled : s'.unscheduled = s.unscheduled := by
    have hweight := ScanSourceState.weight_moves ScanSourceState.aboutToSchedule hi hgetData
    simp only [ScanSourceState.aboutToSchedule, if_neg hold, if_neg hnew, Nat.add_zero] at hweight
    rw [ScanSourceState.unscheduled, ScanSourceState.unscheduled, hstarted, hweight]
  have hremaining : s'.remainingEvent = s.remainingEvent := by
    rw [ScanSourceState.remainingEvent, ScanSourceState.remainingEvent, hevent]
  have hpool : sourcePool scan std arrays s' = sourcePool scan std arrays s := by
    rw [sourcePool, sourcePool, hevent]
  rw [SourceDecreases, hunscheduled, hremaining, hpool]
  refine .right _ (.right _ (.right _ ?_))
  rcases hless with hlt | ⟨heq, hsteps⟩
  · exact .left _ _ hlt
  · have hweight := ScanSourceState.weight_moves ScanSourceState.remainingSteps hi hgetData
    rw [heq]
    exact .right _ (by omega)

theorem SourceStep.decreases (hstep : scan.SourceStep std arrays s a s') :
    SourceDecreases scan std arrays s' s := by
  cases hstep with
  | @exchange i hi =>
    by_cases hstarted : s.searchStarted = true
    · rw [if_pos hstarted]
      exact sourceDecreases_of_moves hi rfl nofun nofun hstarted.symm rfl
        (Or.inr ⟨rfl, by decide⟩)
    · rw [if_neg hstarted]
      refine .left _ _ ?_
      have hgetData : (s.goTo i .schedule).getData = Function.update s.getData i .schedule := rfl
      have hweight := ScanSourceState.weight_moves ScanSourceState.aboutToSchedule hi hgetData
      show 0 + (s.goTo i .schedule).weight ScanSourceState.aboutToSchedule <
        (if s.searchStarted then 0 else 2) + s.weight ScanSourceState.aboutToSchedule
      rw [if_neg hstarted]
      simp only [ScanSourceState.aboutToSchedule, reduceCtorEq, reduceIte] at hweight ⊢
      omega
  | @schedule i hi =>
    refine .left _ _ ?_
    have hgetData : (s.goTo i .lock).getData = Function.update s.getData i .lock := rfl
    have hweight := ScanSourceState.weight_moves ScanSourceState.aboutToSchedule hi hgetData
    refine Nat.add_lt_add_left (m := s.weight ScanSourceState.aboutToSchedule) ?_ _
    show (s.goTo i .lock).weight ScanSourceState.aboutToSchedule < _
    simp only [ScanSourceState.aboutToSchedule, reduceCtorEq, reduceIte] at hweight ⊢
    omega
  | lock hi _ =>
    exact sourceDecreases_of_moves hi rfl nofun nofun rfl rfl (Or.inr ⟨rfl, by decide⟩)
  | readCompleted hi =>
    refine sourceDecreases_of_moves hi rfl nofun ?_ rfl rfl (Or.inr ⟨rfl, ?_⟩)
    · split <;> nofun
    · split <;> decide
  | block hi =>
    exact sourceDecreases_of_moves hi rfl nofun nofun rfl rfl (Or.inr ⟨rfl, by decide⟩)
  | emit hi hrowIds hchunk =>
    refine sourceDecreases_of_moves hi rfl nofun nofun rfl rfl (Or.inl ?_)
    have hpos := List.length_pos_iff.mpr hchunk
    rw [outputChunk_eq_page, length_page] at hpos
    simp only [ScanSourceState.remainingRowIds, ScanSourceState.goTo, hrowIds, Option.getD_some,
      outputChunk_eq_page, length_page]
    omega
  | finish hi _ _ =>
    exact sourceDecreases_of_moves hi rfl nofun nofun rfl rfl (Or.inr ⟨rfl, by decide⟩)
  | task he hpool =>
    refine .right _ ?_
    have hremaining : s.remainingEvent = 4 := by rw [ScanSourceState.remainingEvent, he]
    rw [hremaining, sourcePool, sourcePool, he]
    exact .right _ (.left _ _ ⟨_, hpool⟩)
  | storeRowIds he _ _ =>
    refine sourceDecreases_of_event le_rfl ?_
    simp [ScanSourceState.remainingEvent, he]
  | complete he =>
    refine sourceDecreases_of_event le_rfl ?_
    simp [ScanSourceState.remainingEvent, he]
  | lockEvent he _ =>
    refine sourceDecreases_of_event le_rfl ?_
    simp [ScanSourceState.remainingEvent, he]
  | unblockTasks he =>
    refine sourceDecreases_of_event (Nat.add_le_add_left ?_ _) ?_
    · refine Finset.sum_le_sum fun i _ => ?_
      simp only [ScanSourceState.unblockTasks]
      split
      · exact Nat.zero_le _
      · exact le_rfl
    · simp [ScanSourceState.remainingEvent, he]

/-- Every run can be carried on until all threads have finished. -/
theorem SourceRun.exists_finished (hg : 0 < g) (hrun : scan.SourceRun std arrays tr s) :
    ∃ (tr' : List (ScanSourceAction threads)) (s' : ScanSourceState K H g threads),
      scan.SourceRun std arrays tr' s' ∧ ∀ i, s'.getData i = .finished := by
  have hwf : WellFounded (SourceDecreases scan std arrays :
      ScanSourceState K H g threads → ScanSourceState K H g threads → Prop) :=
    wellFounded_sourceDecreases
  induction s using hwf.induction generalizing tr with
  | h s ih =>
    by_cases hall : ∀ i, s.getData i = .finished
    · exact ⟨tr, s, hrun, hall⟩
    · obtain ⟨i, hi⟩ := not_forall.mp hall
      obtain ⟨a, s', hstep⟩ := hrun.exists_step hg hi
      exact ih s' hstep.decreases (hrun.snoc hstep)

/-- So all threads can come to an end. -/
theorem exists_sourceRun_finished (hg : 0 < g) (scan : ParallelScan K E D g) (std : StdSort)
    (arrays : Fin g → ProbeState D) (H : Type) [Heap H K] (threads : Nat) :
    ∃ (tr : List (ScanSourceAction threads)) (s : ScanSourceState K H g threads),
      scan.SourceRun std arrays tr s ∧ ∀ i, s.getData i = .finished :=
  SourceRun.exists_finished hg .start

/-! ## Every call is answered -/

/-- What holds in every interleaving of the calls of `GetData` with the search: it is scheduled
once, the lock is held by one at a time, row ids are only emitted when they are there, and no call
sleeps through the end of the search, so that all threads are told in the end that the scan is
finished. -/
structure AnswersEveryCall (scan : ParallelScan K E D g) (std : StdSort) (H : Type) [Heap H K]
    (arrays : Fin g → ProbeState D) (threads : Nat) : Prop where
  scheduledOnce : ∀ {tr : List (ScanSourceAction threads)} {s : ScanSourceState K H g threads},
    scan.SourceRun std arrays tr s → tr.countP ScanSourceAction.isAddEvent ≤ 1
  oneHolder : ∀ {tr : List (ScanSourceAction threads)} {s : ScanSourceState K H g threads}
    {i j : Fin threads}, scan.SourceRun std arrays tr s → (s.getData i).HoldsLock →
    s.event ≠ some .unblockTasks ∧ ((s.getData j).HoldsLock → i = j)
  rowIdsPresent : ∀ {tr : List (ScanSourceAction threads)} {s : ScanSourceState K H g threads}
    {i : Fin threads}, scan.SourceRun std arrays tr s → s.getData i = .emit →
    ∃ rowIds, s.pdxearchRowIds = some rowIds ∧ s.pdxearchRowIdsIdx ≤ rowIds.length
  noLostWakeUp : ∀ {tr : List (ScanSourceAction threads)} {s : ScanSourceState K H g threads}
    {i : Fin threads}, scan.SourceRun std arrays tr s → s.event = some .finished →
    s.getData i ≠ .blocked
  progress : ∀ {tr : List (ScanSourceAction threads)} {s : ScanSourceState K H g threads},
    scan.SourceRun std arrays tr s →
    (∀ i, s.getData i = .finished) ∨ ∃ a s', scan.SourceStep std arrays s a s'
  terminates : WellFounded fun s' s : ScanSourceState K H g threads =>
    ∃ a, scan.SourceStep std arrays s a s'

theorem answersEveryCall (scan : ParallelScan K E D g) (hg : 0 < g) (std : StdSort) (H : Type)
    [Heap H K] (arrays : Fin g → ProbeState D) (threads : Nat) :
    scan.AnswersEveryCall std H arrays threads := by
  refine ⟨fun hrun => ?_, fun {_ _ i j} hrun hi => ?_, fun {_ _ i} hrun hi => ?_,
    fun {_ s i} hrun he hi => ?_, fun {_ s} hrun => ?_, ?_⟩
  · rw [hrun.countP_isAddEvent]
    split <;> decide
  · obtain ⟨-, hl, -⟩ := hrun.coordinated
    refine ⟨fun he => ?_, hl.eq_of_holdsLock hi⟩
    have hholder := (hl.holdsLock i).mp hi
    rw [hl.unblocking.mp he] at hholder
    cases hholder
  · obtain ⟨rowIds, hrowIds⟩ := hrun.exists_rowIds_of_emit hi
    obtain ⟨-, hpaged, -⟩ := hrun.emitted.stored rowIds hrowIds
    exact ⟨rowIds, hrowIds, hpaged.position_le⟩
  · obtain ⟨-, -, hw⟩ := hrun.coordinated
    have hmem := (hw.mem_blockedTasks i).mpr hi
    rw [hw.blockedTasks_eq he] at hmem
    cases hmem
  · by_cases hall : ∀ i, s.getData i = .finished
    · exact Or.inl hall
    · obtain ⟨i, hi⟩ := not_forall.mp hall
      exact Or.inr (hrun.exists_step hg hi)
  · have hwf : WellFounded (SourceDecreases scan std arrays :
        ScanSourceState K H g threads → ScanSourceState K H g threads → Prop) :=
      wellFounded_sourceDecreases
    refine Subrelation.wf ?_ hwf
    rintro s' s ⟨a, hstep⟩
    exact hstep.decreases

/-- Two row groups and three threads. -/
theorem answersEveryCall_eightVectors :
    eightVectors.AnswersEveryCall StdSort.insertion
      (SortedQueue (KNNCandidate.distance (K := Rat)))
      (fun _ => .const (ofReal 0)) 3 :=
  answersEveryCall eightVectors (by decide) StdSort.insertion
    (SortedQueue (KNNCandidate.distance (K := Rat))) _ 3

/-- What has been emitted are pages of the result of a search, all of them once a call has found
nothing left. -/
theorem SourceRun.exists_searchResult (hrun : scan.SourceRun std arrays tr s) :
    ∃ rowIds, scan.IsSearchResult std H arrays rowIds ∧ ∃ position,
      Paged standardVectorSize rowIds (outputs tr) position ∧
      ((∃ i, s.getData i = .finished) → outputChunk rowIds position = []) := by
  match hrowIds : s.pdxearchRowIds with
  | some rowIds =>
    obtain ⟨hresult, hpaged, hfinished⟩ := hrun.emitted.stored rowIds hrowIds
    exact ⟨rowIds, hresult, _, hpaged, fun ⟨i, hi⟩ => hfinished i hi⟩
  | none =>
    obtain ⟨-, hnil, hfinished⟩ := hrun.emitted.nothing hrowIds
    obtain ⟨tr', p, hpool, hfin⟩ := Pool.exists_run_finished (queueObj scan.k)
      (scan.schedule std H arrays)
    refine ⟨_, ⟨tr', p, hpool, hfin, rfl⟩, 0, hnil ▸ .nil, fun ⟨i, hi⟩ => ?_⟩
    exact absurd hi (hfinished i)

/-- All of the result at the end, and a first part of it before. -/
theorem SourceRun.exists_result (hrun : scan.SourceRun std arrays tr s) :
    ∃ rowIds, scan.IsSearchResult std H arrays rowIds ∧ (outputs tr).flatten <+: rowIds ∧
      ((∃ i, s.getData i = .finished) → (outputs tr).flatten = rowIds) := by
  obtain ⟨rowIds, hresult, position, hpaged, hfinished⟩ := hrun.exists_searchResult
  refine ⟨rowIds, hresult, ?_, fun hdone => ?_⟩
  · rw [hpaged.flatten]
    exact List.take_prefix _ _
  · exact (hpaged.complete (by decide)
      ((outputChunk_eq_page _ _).symm.trans (hfinished hdone))).1

end ParallelScan

/-! ## The nearest vectors are emitted -/

namespace ParallelScan

variable {K : Type} [Field K] [LinearOrder K] [IsStrictOrderedRing K] {g : Nat}

/-- The chunks are the row ids of the nearest probed vectors, the nearest first: a first part of
them at any time, and all of them once a call has returned `FINISHED`. -/
structure EmitsNearest (scan : ParallelScan K K (ExactFloat K) g) (std : StdSort)
    (chunks : List (List Nat)) (finished : Prop) (nearest : List (KNNCandidate K)) : Prop where
  isKSmallest : IsKSmallest KNNCandidate.distance scan.limit (scan.probedVectors std) nearest
  sorted : nearest.Pairwise fun a b => a.distance ≤ b.distance
  nodup : (nearest.map KNNCandidate.index).Nodup
  emitted : chunks.flatten <+: nearest.map KNNCandidate.index
  full : ∀ chunk ∈ chunks.dropLast, chunk.length = standardVectorSize
  all : finished → chunks.flatten = nearest.map KNNCandidate.index
  length_chunks : finished → chunks.length = (min scan.limit (scan.probedVectors std).card +
    standardVectorSize - 1) / standardVectorSize

/-- For row ids and a limit of 32 bits. -/
theorem emitsNearest {std : StdSort} {scan : ParallelScan K K (ExactFloat K) g}
    (hk : 0 < scan.limit) (hlimit : scan.limit < 2 ^ 32)
    (hf32 : ∀ r, (scan.rowGroups.searcher r).pdxData.quantization = Quantization.f32)
    (hlossless : ∀ r, (scan.rowGroups.searcher r).pruner.Lossless)
    {rowId : Fin g → Nat → Nat → Nat} (hstores : scan.rowGroups.StoresRowIds rowId)
    (hlt : ∀ r c i, IsSlot (scan.rowGroups.searcher r).pdxData c i → rowId r c i < 2 ^ 32)
    {H : Type} [Heap H K]
    {arrays : Fin g → ProbeState (ExactFloat K)} {threads : Nat}
    {tr : List (ScanSourceAction threads)} {s : ScanSourceState K H g threads}
    (hrun : scan.SourceRun std arrays tr s) :
    ∃ nearest, scan.EmitsNearest std (outputs tr) (∃ i, s.getData i = .finished) nearest := by
  obtain ⟨rowIds, ⟨tr', p, hpool, hfin, rfl⟩, position, hpaged, hfinished⟩ :=
    hrun.exists_searchResult
  obtain ⟨hsmallest, hsorted⟩ :=
    finishEvent_of_finished (k_eq hlimit ▸ hk) hf32 hlossless hpool hfin
  have hnodup := nodup_of_smallest hstores hlt hsmallest
  rw [k_eq hlimit] at hsmallest
  have hlength := hsmallest.card_eq
  rw [Multiset.coe_card] at hlength
  have hcomplete := fun h => hpaged.complete (by decide)
    ((outputChunk_eq_page _ _).symm.trans (hfinished h))
  refine ⟨scan.finishEvent p.shared, hsmallest, hsorted, hnodup, ?_, hpaged.dropLast_full,
    fun h => (hcomplete h).1, fun h => ?_⟩
  · rw [hpaged.flatten]
    exact List.take_prefix _ _
  · rw [hpaged.length_pages (by decide), (hcomplete h).2, List.length_map, hlength]

/-- Two threads, after their last calls. -/
theorem emitsNearest_eightVectors : ∃ (tr : List (ScanSourceAction 2)) (s : ScanSourceState Rat
    (SortedQueue (KNNCandidate.distance (K := Rat))) 2 2), (∀ i, s.getData i = .finished) ∧
    ∃ nearest, eightVectors.EmitsNearest StdSort.insertion (outputs tr)
      (∃ i, s.getData i = .finished) nearest := by
  obtain ⟨tr, s, hrun, hall⟩ := exists_sourceRun_finished (by decide) eightVectors
    StdSort.insertion (fun _ => .const (ofReal 0)) (SortedQueue (KNNCandidate.distance (K := Rat))) 2
  exact ⟨tr, s, hall, emitsNearest (by decide) (by decide) (fun _ => rfl) (fun _ _ _ => le_rfl)
    (storesRowIds_sample (by decide)) rowIds_eightVectors hrun⟩

end ParallelScan

end PDXearch
