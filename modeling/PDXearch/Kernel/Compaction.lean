import PDXearch.Kernel.Probe

/-!
# Compaction of the positions array

The candidates of a cluster are the first `n_vectors_not_pruned` entries of the positions array.
The array is filled from the index range and then filtered in place, by loops that store an entry
on every iteration and advance the write position only behind an entry that passes the test. A
loop cut off after `t` iterations is the same loop run for `t` vectors, so the invariant
`Compacted` of such runs says what is in the array at every moment.
-/

namespace PDXearch

open Lib

variable {D : Type} [LinearOrder D]

/-! ## One call -/

section Loops

theorem evaluatePruningPredicateOnPositionsArray_succ (t : Nat) (positions : Nat → Nat)
    (threshold : D) (distances : Nat → D) :
    let s := evaluatePruningPredicateOnPositionsArray t positions threshold distances
    evaluatePruningPredicateOnPositionsArray (t + 1) positions threshold distances =
      (Function.update s.1 s.2 (s.1 t),
        s.2 + if distances (Function.update s.1 s.2 (s.1 t) t) < threshold then 1 else 0) := by
  simp only [evaluatePruningPredicateOnPositionsArray, List.range_succ, List.foldl_append,
    List.foldl_cons, List.foldl_nil]
  rfl

theorem evaluatePruningPredicateOnPositionsArray_compacted (t : Nat) (positions : Nat → Nat)
    (threshold : D) (distances : Nat → D) :
    Compacted positions positions (fun i => distances i < threshold) t
      (evaluatePruningPredicateOnPositionsArray t positions threshold distances) := by
  induction t with
  | zero => exact .zero _ _ _
  | succ t ih =>
    have hstep := evaluatePruningPredicateOnPositionsArray_succ t positions threshold distances
    generalize evaluatePruningPredicateOnPositionsArray t positions threshold distances = s at *
    -- the entry just read is the one that was written
    have hentry : s.1 t = positions t := ih.frame t le_rfl
    have hwritten : Function.update s.1 s.2 (positions t) t = positions t := by
      by_cases hct : t = s.2
      · rw [← hct, Function.update_self]
      · rw [Function.update_of_ne hct, hentry]
    simp only [hentry, hwritten] at hstep
    rw [hstep]
    simpa only [decide_eq_true_eq] using ih.succ

theorem evaluatePruningPredicateOnPositionsArray_kept (m : Nat) (positions : Nat → Nat)
    (threshold : D) (distances : Nat → D) :
    (List.range (evaluatePruningPredicateOnPositionsArray m positions threshold distances).2).map
        (evaluatePruningPredicateOnPositionsArray m positions threshold distances).1 =
      ((List.range m).map positions).filter (fun i => distances i < threshold) :=
  (evaluatePruningPredicateOnPositionsArray_compacted m positions threshold distances).kept

theorem initPositionsArray_compacted (t : Nat) (positions : Nat → Nat) (threshold : D)
    (distances : Nat → D) (selection : Option (Nat → Bool)) :
    Compacted id positions
      (fun i => distances i < threshold ∧ selection.all (fun sel => sel i)) t
      (initPositionsArray t positions threshold distances selection) :=
  foldl_range_induction (.zero _ _ _) fun t s _ h => by
    simpa only [decide_eq_true_eq, id] using h.succ

theorem initPositionsArray_kept (n : Nat) (positions : Nat → Nat) (threshold : D)
    (distances : Nat → D) (selection : Option (Nat → Bool)) :
    (List.range (initPositionsArray n positions threshold distances selection).2).map
        (initPositionsArray n positions threshold distances selection).1 =
      (List.range n).filter
        (fun i => distances i < threshold ∧ selection.all (fun sel => sel i)) := by
  have h := (initPositionsArray_compacted n positions threshold distances selection).kept
  rwa [List.map_id] at h

omit [LinearOrder D] in
theorem initPositionsArrayFromSelectionVector_compacted (t : Nat) (positions : Nat → Nat)
    (selection : Nat → Bool) :
    Compacted id positions selection t
      (initPositionsArrayFromSelectionVector t positions selection) :=
  foldl_range_induction (.zero _ _ _) fun t s _ h => by simpa only [id] using h.succ

omit [LinearOrder D] in
theorem initPositionsArrayFromSelectionVector_kept (n : Nat) (positions : Nat → Nat)
    (selection : Nat → Bool) :
    (List.range (initPositionsArrayFromSelectionVector n positions selection).2).map
        (initPositionsArrayFromSelectionVector n positions selection).1 =
      (List.range n).filter selection := by
  have h := (initPositionsArrayFromSelectionVector_compacted n positions selection).kept
  rwa [List.map_id] at h

end Loops

/-! ## In place -/

/-- A loop of `m` steps on the array `positions` with room for `n` entries, given by the states
`after` each number of steps. Every step writes one entry, `value t`, inside the array, and the
entries from the current one on are still those the loop was called with. -/
structure InPlace (n m : Nat) (positions : Nat → Nat) (value : Nat → Nat)
    (after : Nat → (Nat → Nat) × Nat) : Prop where
  writes : ∀ t < m, (after (t + 1)).1 = Function.update (after t).1 (after t).2 (value t)
  writeInRange : ∀ t < m, (after t).2 < n
  valueInRange : ∀ t < m, value t < n
  unread : ∀ t ≤ m, ∀ j, t ≤ j → (after t).1 j = positions j

/-- The invariant of the compaction bounds the write position by the read position. -/
theorem InPlace.of_compacted {n m : Nat} {positions orig value : Nat → Nat} {keep : Nat → Bool}
    {after : Nat → (Nat → Nat) × Nat} (hm : m ≤ n)
    (hcompacted : ∀ t, Compacted orig positions keep t (after t))
    (hwrites : ∀ t, (after (t + 1)).1 = Function.update (after t).1 (after t).2 (value t))
    (hvalue : ∀ t < m, value t < n) : InPlace n m positions value after where
  writes := fun t _ => hwrites t
  writeInRange := fun t ht => by
    have hle := (hcompacted t).le
    omega
  valueInRange := hvalue
  unread := fun t _ => (hcompacted t).frame

/-! ## Any number of calls -/

/-- What fills the positions array before the first test. -/
inductive PositionsInit (D : Type) where
  | initPositionsArray (pruningThreshold : D) (pruningDistances : Nat → D)
      (selectionVector : Option (Nat → Bool))
  | initPositionsArrayFromSelectionVector (selectionVector : Nat → Bool)

namespace PositionsInit

def run (init : PositionsInit D) (nVectors : Nat) (pruningPositions : Nat → Nat) :
    (Nat → Nat) × Nat :=
  match init with
  | .initPositionsArray threshold distances selection =>
    PDXearch.initPositionsArray nVectors pruningPositions threshold distances selection
  | .initPositionsArrayFromSelectionVector selection =>
    PDXearch.initPositionsArrayFromSelectionVector nVectors pruningPositions selection

/-- The vector is selected and passes the first test, if there is one. -/
def keeps (init : PositionsInit D) (i : Nat) : Bool :=
  match init with
  | .initPositionsArray threshold distances selection =>
    distances i < threshold ∧ selection.all (fun sel => sel i)
  | .initPositionsArrayFromSelectionVector selection => selection i

theorem run_compacted (init : PositionsInit D) (t : Nat) (positions : Nat → Nat) :
    Compacted id positions init.keeps t (init.run t positions) := by
  cases init with
  | initPositionsArray threshold distances selection =>
    exact initPositionsArray_compacted t positions threshold distances selection
  | initPositionsArrayFromSelectionVector selection =>
    exact initPositionsArrayFromSelectionVector_compacted t positions selection

theorem run_succ (init : PositionsInit D) (t : Nat) (positions : Nat → Nat) :
    (init.run (t + 1) positions).1 =
      Function.update (init.run t positions).1 (init.run t positions).2 t := by
  cases init with
  | initPositionsArray threshold distances selection =>
    simp only [run, PDXearch.initPositionsArray, List.range_succ, List.foldl_append,
      List.foldl_cons, List.foldl_nil]
  | initPositionsArrayFromSelectionVector selection =>
    simp only [run, PDXearch.initPositionsArrayFromSelectionVector, List.range_succ,
      List.foldl_append, List.foldl_cons, List.foldl_nil]

theorem run_inPlace (init : PositionsInit D) (n : Nat) (positions : Nat → Nat) :
    InPlace n n positions id (fun t => init.run t positions) :=
  .of_compacted le_rfl (fun t => init.run_compacted t positions)
    (fun t => init.run_succ t positions) fun _ ht => ht

end PositionsInit

/-- The tests after it, each a threshold and the distances at that time, and each called with the
number of vectors that the one before it kept. -/
def evaluatePruningPredicates (tests : List (D × (Nat → D))) (s : (Nat → Nat) × Nat) :
    (Nat → Nat) × Nat :=
  tests.foldl (fun s test =>
    evaluatePruningPredicateOnPositionsArray s.2 s.1 test.1 test.2) s

/-- `i` was below the threshold at every test. -/
def passes (tests : List (D × (Nat → D))) (i : Nat) : Bool :=
  tests.all fun test => test.2 i < test.1

theorem evaluatePruningPredicates_kept (tests : List (D × (Nat → D))) (s : (Nat → Nat) × Nat) :
    (List.range (evaluatePruningPredicates tests s).2).map (evaluatePruningPredicates tests s).1 =
      ((List.range s.2).map s.1).filter (passes tests) := by
  induction tests generalizing s with
  | nil => exact (List.filter_eq_self.mpr fun _ _ => rfl).symm
  | cons test tests ih =>
    refine (ih _).trans ?_
    rw [evaluatePruningPredicateOnPositionsArray_kept, List.filter_filter]
    refine List.filter_congr fun i _ => ?_
    simp only [passes, List.all_cons, Bool.and_comm]

/-- The candidates after the array was filled and tested. -/
theorem PositionsInit.run_kept (init : PositionsInit D) (n : Nat) (positions : Nat → Nat)
    (tests : List (D × (Nat → D))) :
    let s := evaluatePruningPredicates tests (init.run n positions)
    (List.range s.2).map s.1 =
      (List.range n).filter fun i => init.keeps i && passes tests i := by
  have hinit := (init.run_compacted n positions).kept
  rw [List.map_id] at hinit
  intro s
  refine (evaluatePruningPredicates_kept tests _).trans ?_
  rw [hinit, List.filter_filter]
  refine List.filter_congr fun i _ => ?_
  rw [Bool.and_comm]

/-- A test is in place when the candidates it is called with are vectors of the cluster. -/
theorem evaluatePruningPredicateOnPositionsArray_inPlace {n m : Nat} {positions : Nat → Nat}
    (hm : m ≤ n) (hpositions : ∀ t < m, positions t < n) (threshold : D) (distances : Nat → D) :
    InPlace n m positions
      (fun t => (evaluatePruningPredicateOnPositionsArray t positions threshold distances).1 t)
      (fun t => evaluatePruningPredicateOnPositionsArray t positions threshold distances) := by
  have hcompacted := fun t =>
    evaluatePruningPredicateOnPositionsArray_compacted t positions threshold distances
  refine .of_compacted hm hcompacted (fun t => ?_) fun t ht => ?_
  · rw [evaluatePruningPredicateOnPositionsArray_succ]
  · rw [(hcompacted t).frame t le_rfl]
    exact hpositions t ht

/-- However the array was filled and however often it was tested: the candidates are, in
increasing order, the selected vectors that were below the threshold at every test. All the loops
on the way work in place. -/
theorem positionsArray_filters (n : Nat) (positions : Nat → Nat) (init : PositionsInit D)
    (tests : List (D × (Nat → D))) :
    let after := fun tests => evaluatePruningPredicates tests (init.run n positions)
    (List.range (after tests).2).map (after tests).1 =
        ((List.range n).filter fun i => init.keeps i && passes tests i) ∧
      ((List.range (after tests).2).map (after tests).1).Pairwise (· < ·) ∧
      InPlace n n positions id (fun t => init.run t positions) ∧
      ∀ (done : List (D × (Nat → D))) (threshold : D) (distances : Nat → D),
        InPlace n (after done).2 (after done).1
          (fun t =>
            (evaluatePruningPredicateOnPositionsArray t (after done).1 threshold distances).1 t)
          (fun t =>
            evaluatePruningPredicateOnPositionsArray t (after done).1 threshold distances) := by
  have hkept := init.run_kept n positions
  intro after
  refine ⟨hkept tests, ?_, init.run_inPlace n positions, fun done threshold distances => ?_⟩
  · rw [hkept tests]
    exact List.pairwise_lt_range.filter _
  · have hcandidates := hkept done
    refine evaluatePruningPredicateOnPositionsArray_inPlace ?_ (fun t ht => ?_) _ _
    · have hlength := congrArg List.length hcandidates
      rw [List.length_map, List.length_range] at hlength
      have hle := List.length_filter_le (fun i => init.keeps i && passes done i) (List.range n)
      rw [List.length_range] at hle
      exact hlength.trans_le hle
    · have hmem := List.mem_map_of_mem (f := (after done).1) (List.mem_range.mpr ht)
      rw [hcandidates] at hmem
      exact List.mem_range.mp (List.mem_filter.mp hmem).1

end PDXearch
