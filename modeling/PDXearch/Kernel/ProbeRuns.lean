import PDXearch.Kernel.Compaction

/-!
# What a probe computes

Runs of `Warmup` and `Prune` against arbitrary threshold reads. `Reached a b L s` says that the
state has gone through `a` vertical and `b` horizontal dimensions with the vectors `L` left.
Each loop advances `a` or `b` and filters `L` by the thresholds it reads; a run that leaves a
vector over has gone through all dimensions, each once.
-/

namespace PDXearch

open Lib Client

/-! ## The loops over the arrays -/

section Loops

variable {K E D : Type}

theorem resetPruningDistances_apply (Q : Quantization K E D) (n : Nat) (distances : Nat → D)
    (i : Nat) :
    resetPruningDistances Q n distances i = if i < n then Q.zero else distances i :=
  foldl_update_range n (fun _ _ => Q.zero) distances i

theorem maskDistancesWithSelectionVector_apply (Q : Quantization K E D) (n : Nat)
    (distances : Nat → D) (selection : Nat → Bool) (i : Nat) :
    maskDistancesWithSelectionVector Q n distances selection i =
      if i < n then (if selection i = false then Q.halfMax else distances i) else distances i :=
  foldl_update_range n (fun i x => if selection i = false then Q.halfMax else x) distances i

end Loops

/-! ## Progress of a probe -/

section Progress

variable {M : Type} [AddCommMonoid M]

/-- The partial distance that is compared with the threshold read at `currentDimensionIdx`, when
`Warmup` stopped after `w` dimensions: first the horizontal ones are added, then the vertical. -/
def partialAt (term : Nat → Nat → M) (v h w currentDimensionIdx i : Nat) : M :=
  if currentDimensionIdx ≤ w + h then partialSum term v i w (currentDimensionIdx - w)
  else partialSum term v i (currentDimensionIdx - h) h

/-- The sum over all dimensions. -/
def fullSum (term : Nat → Nat → M) (v h i : Nat) : M := partialSum term v i v h

variable {D : Type}

/-- The state has gone through `a` vertical and `b` horizontal dimensions of the vectors `L`, which
are those not pruned. -/
structure Reached (term : Nat → Nat → M) (embed : M → D) (v n a b : Nat) (L : List Nat)
    (s : ProbeState D) : Prop where
  notPruned : s.notPruned = L
  nodup : L.Nodup
  lt : ∀ i ∈ L, i < n
  distances : ∀ i ∈ L, s.pruningDistances i = embed (partialSum term v i a b)

namespace Reached

variable {term : Nat → Nat → M} {embed : M → D} {v n a b : Nat} {L : List Nat} {s : ProbeState D}

theorem length_eq (hr : Reached term embed v n a b L s) : L.length = s.nVectorsNotPruned := by
  simp [← hr.notPruned, ProbeState.notPruned]

theorem visited_eq (hr : Reached term embed v n a b L s) :
    visited true s.pruningPositions s.nVectorsNotPruned = L := by
  rw [visited_true]
  exact hr.notPruned

end Reached

variable [LinearOrder D]

/-- The partial distance of `i` was below every threshold read. -/
def Survives (term : Nat → Nat → M) (embed : M → D) (v h w : Nat)
    (tr : List (Event Nat fun _ => D)) (i : Nat) : Prop :=
  ∀ e ∈ tr, embed (partialAt term v h w e.1 i) < e.2

instance (term : Nat → Nat → M) (embed : M → D) (v h w : Nat)
    (tr : List (Event Nat fun _ => D)) : DecidablePred (Survives term embed v h w tr) :=
  fun i => inferInstanceAs (Decidable (∀ e ∈ tr, embed (partialAt term v h w e.1 i) < e.2))

theorem survives_cons (term : Nat → Nat → M) (embed : M → D) (v h w : Nat)
    (e : Event Nat fun _ => D) (tr : List (Event Nat fun _ => D)) (i : Nat) :
    Survives term embed v h w (e :: tr) i ↔
      embed (partialAt term v h w e.1 i) < e.2 ∧ Survives term embed v h w tr i := by
  simp [Survives]

/-- The vectors that pass one test and survive the rest. -/
theorem filter_survives_cons {term : Nat → Nat → M} {embed : M → D} {v h w : Nat} (L : List Nat)
    {idx : Nat} {f : Nat → M} (hat : ∀ i, partialAt term v h w idx i = f i) (threshold : D)
    (tr : List (Event Nat fun _ => D)) :
    (L.filter fun i => embed (f i) < threshold).filter (Survives term embed v h w tr) =
      L.filter (Survives term embed v h w (⟨idx, threshold⟩ :: tr)) := by
  rw [List.filter_filter]
  refine List.filter_congr fun i _ => ?_
  rw [Bool.and_comm, ← Bool.decide_and]
  exact decide_eq_decide.mpr (by rw [survives_cons, hat])

theorem filter_survives_append (term : Nat → Nat → M) (embed : M → D) (v h w : Nat) (L : List Nat)
    (tr tr' : List (Event Nat fun _ => D)) :
    (L.filter (Survives term embed v h w tr)).filter (Survives term embed v h w tr') =
      L.filter (Survives term embed v h w (tr ++ tr')) := by
  rw [List.filter_filter]
  refine List.filter_congr fun i _ => ?_
  rw [← Bool.decide_and]
  refine decide_eq_decide.mpr ?_
  simp only [Survives, List.forall_mem_append, and_comm]

/-- One test: the threshold read decides which vectors stay. -/
theorem Reached.test {term : Nat → Nat → M} {embed : M → D} {v n a b : Nat} {L : List Nat}
    {s : ProbeState D} (hr : Reached term embed v n a b L s) {idx : Nat} {s' : ProbeState D}
    {tr : List (Event Nat fun _ => D)} (hrun : (Searcher.testNotPruned idx s).Runs tr s') :
    ∃ threshold, tr = [⟨idx, threshold⟩] ∧ s'.currentDimensionIdx = idx ∧
      Reached term embed v n a b
        (L.filter fun i => embed (partialSum term v i a b) < threshold) s' := by
  obtain ⟨threshold, tr', rfl, hnext⟩ := runs_call_iff.mp hrun
  obtain ⟨rfl, rfl⟩ := runs_done_iff.mp hnext
  refine ⟨threshold, rfl, rfl, ?_, hr.nodup.filter _, fun i hi => hr.lt i (List.mem_filter.mp hi).1,
    fun i hi => hr.distances i (List.mem_filter.mp hi).1⟩
  refine (evaluatePruningPredicateOnPositionsArray_kept _ _ _ _).trans ?_
  have hlist : (List.range s.nVectorsNotPruned).map s.pruningPositions = L := hr.notPruned
  rw [hlist]
  exact List.filter_congr fun i hi => by rw [hr.distances i hi]

end Progress

/-! ## Runs -/

namespace Searcher

/-- The dimensions of the searcher's index. -/
structure HasDims {K E D : Type} (S : Searcher K E D) (v h : Nat) : Prop where
  vertical : S.pdxData.numVerticalDimensions = v
  horizontal : S.pdxData.numHorizontalDimensions = h

theorem hasDims {K E D : Type} (S : Searcher K E D) :
    HasDims S S.pdxData.numVerticalDimensions S.pdxData.numHorizontalDimensions := ⟨rfl, rfl⟩

theorem HasDims.total {K E D : Type} {S : Searcher K E D} {v h : Nat} (hd : HasDims S v h) :
    S.pdxData.numDimensions = v + h := by
  rw [← hd.vertical, ← hd.horizontal, IndexPDXIVF.vertical_add_horizontal]

theorem HasDims.dvd {K E D : Type} {S : Searcher K E D} {v h : Nat} (hd : HasDims S v h) :
    hDimSize ∣ h :=
  hd.horizontal ▸ S.pdxData.hDimSize_dvd

section Runs

variable {K E D M : Type} [LinearOrder D] [AddCommMonoid M] {S : Searcher K E D}
  {query data : Nat → E} {n : Nat} {term : Nat → Nat → M} {embed : M → D} {v h : Nat}

/-- The vertical dimensions that `Warmup` has gone through when its loop tests its condition. -/
theorem warmupLoop_runs (hd : HasDims S v h)
    (hm : Measures S.pdxData.quantization query data v h n term embed) {tuples : Nat}
    {sizes : List Nat} (hsizes : ∀ size ∈ sizes, u8InterleaveSize ∣ size) {count : Nat}
    {s s' : ProbeState D} {tr : List (Event Nat fun _ => D)}
    (hs : Aligned v 0 s.currentDimensionIdx)
    (hrun : (S.warmupLoop query data n tuples sizes count s).Runs tr s') :
    Aligned v 0 s'.currentDimensionIdx ∧ (∀ e ∈ tr, e.1 ≤ v) ∧ ∀ i < n,
      s.pruningDistances i = embed (partialSum term v i s.currentDimensionIdx 0) →
      s'.pruningDistances i = embed (partialSum term v i s'.currentDimensionIdx 0) := by
  induction sizes generalizing count s tr with
  | nil =>
    obtain ⟨rfl, rfl⟩ := runs_done_iff.mp hrun
    exact ⟨hs, by simp, fun _ _ => id⟩
  | cons size sizes ih =>
    unfold warmupLoop at hrun
    split at hrun
    · rename_i hcond
      rw [hd.vertical] at hcond hrun
      obtain ⟨threshold, tr', rfl, hnext⟩ := runs_call_iff.mp hrun
      have hsize : 4 ∣ size := hsizes size List.mem_cons_self
      obtain ⟨-, -, hle, hend⟩ := hs
      have hstep : Aligned v s.currentDimensionIdx (min (s.currentDimensionIdx + size) v) :=
        ⟨by omega, by omega, by omega, by omega⟩
      obtain ⟨haligned, hreads, hdist⟩ := ih (fun x hx => hsizes x (List.mem_cons_of_mem _ hx))
        ⟨dvd_zero 4, Nat.zero_le _, hstep.2.2.1, hstep.2.2.2⟩ hnext
      refine ⟨haligned, List.forall_mem_cons.mpr ⟨hstep.2.2.1, hreads⟩, fun i hi hsi => hdist i hi ?_⟩
      have hall : visited false s.pruningPositions n = List.range n := visited_false _ _
      exact hm.vertical hstep (Nat.zero_le h) (hall ▸ List.nodup_range) i
        (hall ▸ List.mem_range.mpr hi) hsi
    · obtain ⟨rfl, rfl⟩ := runs_done_iff.mp hrun
      exact ⟨hs, by simp, fun _ _ => id⟩

/-- The loop never asks for more entries than the table has: a longer table changes nothing. -/
theorem warmupLoop_append (query data : Nat → E) (n tuples : Nat) (more : List Nat)
    {sizes : List Nat} {count : Nat} {s : ProbeState D}
    (hsum : S.pdxData.numVerticalDimensions ≤ s.currentDimensionIdx + sizes.sum) :
    S.warmupLoop query data n tuples (sizes ++ more) count s =
      S.warmupLoop query data n tuples sizes count s := by
  induction sizes generalizing count s with
  | nil =>
    cases more with
    | nil => rfl
    | cons size more =>
      simp only [List.sum_nil] at hsum
      simp only [List.nil_append, warmupLoop]
      rw [if_neg (by omega)]
  | cons size sizes ih =>
    simp only [List.cons_append, warmupLoop]
    split
    · congr 1
      funext threshold
      refine ih ?_
      simp only [List.sum_cons] at hsum ⊢
      omega
    · rfl

theorem warmup_runs (hd : HasDims S v h)
    (hm : Measures S.pdxData.quantization query data v h n term embed) {filter : Option Selection}
    {s s' : ProbeState D} {tr : List (Event Nat fun _ => D)}
    (hrun : (S.warmup query data n filter s).Runs tr s') :
    Aligned v 0 s'.currentDimensionIdx ∧ (∀ e ∈ tr, e.1 ≤ v) ∧ ∀ i < n,
      filter.all (fun sel => sel.selectionVector i) →
      s'.pruningDistances i = embed (partialSum term v i s'.currentDimensionIdx 0) := by
  have hzero : ∀ i, embed (partialSum term v i 0 0) = S.pdxData.quantization.zero := fun i => by
    simp [partialSum, hm.zero]
  have halign := aligned_zero v
  cases filter with
  | none =>
    obtain ⟨threshold, tr', rfl, hnext⟩ := runs_call_iff.mp hrun
    obtain ⟨haligned, hreads, hdist⟩ := warmupLoop_runs hd hm
      allFetchingSizesMultipleOfU8InterleaveSize halign hnext
    refine ⟨haligned, List.forall_mem_cons.mpr ⟨Nat.zero_le v, hreads⟩, fun i hi _ => hdist i hi ?_⟩
    rw [hzero]
    exact (resetPruningDistances_apply _ _ _ _).trans (if_pos hi)
  | some selection =>
    have hstart : ∀ i < n, selection.selectionVector i →
        maskDistancesWithSelectionVector S.pdxData.quantization n
          (resetPruningDistances S.pdxData.quantization n s.pruningDistances)
          selection.selectionVector i = embed (partialSum term v i 0 0) := fun i hi hsel => by
      rw [hzero, maskDistancesWithSelectionVector_apply, if_pos hi, hsel,
        resetPruningDistances_apply, if_pos hi]
      rfl
    unfold warmup at hrun
    simp only at hrun
    split at hrun
    · obtain ⟨rfl, rfl⟩ := runs_done_iff.mp hrun
      exact ⟨halign, by simp, fun i hi hsel => hstart i hi (by simpa using hsel)⟩
    · obtain ⟨threshold, tr', rfl, hnext⟩ := runs_call_iff.mp hrun
      obtain ⟨haligned, hreads, hdist⟩ := warmupLoop_runs hd hm
        allFetchingSizesMultipleOfU8InterleaveSize halign hnext
      exact ⟨haligned, List.forall_mem_cons.mpr ⟨Nat.zero_le v, hreads⟩,
        fun i hi hsel => hdist i hi (hstart i hi (by simpa using hsel))⟩

omit [LinearOrder D] in
/-- One horizontal block added to the distances of the vectors not pruned. -/
theorem reached_block (hm : Measures S.pdxData.quantization query data v h n term embed)
    {a b : Nat} {L : List Nat} {s : ProbeState D} (hr : Reached term embed v n a b L s)
    (ha : a ≤ v) (hb : hDimSize ∣ b) (hbh : b + hDimSize ≤ h) :
    Reached term embed v n a (b + hDimSize) L { s with
      pruningDistances := s.notPruned.foldl (fun distances vIdx =>
        Function.update distances vIdx (S.pdxData.quantization.add (distances vIdx)
          (S.pdxData.quantization.horizontal (fun d => query (v + b + d))
            (fun d => data (v * n + b * n + vIdx * hDimSize + d)) hDimSize))) s.pruningDistances } := by
  refine ⟨hr.notPruned, hr.nodup, hr.lt, fun i hi => ?_⟩
  have hupdate := foldl_update_nodup (hr.notPruned ▸ hr.nodup) (fun vIdx x =>
    S.pdxData.quantization.add x (S.pdxData.quantization.horizontal (fun d => query (v + b + d))
      (fun d => data (v * n + b * n + vIdx * hDimSize + d)) hDimSize)) s.pruningDistances i
  refine hupdate.trans ?_
  rw [if_pos (hr.notPruned ▸ hi), hr.distances i hi]
  exact hm.horizontal ha hb hbh

theorem pruneHorizontal_runs (hd : HasDims S v h)
    (hm : Measures S.pdxData.quantization query data v h n term embed) {w b fuel : Nat}
    {L : List Nat} {s s' : ProbeState D} {tr : List (Event Nat fun _ => D)} (hw : w ≤ v)
    (hb : hDimSize ∣ b) (hbh : b ≤ h) (hfuel : h - b ≤ fuel)
    (hr : Reached term embed v n w b L s) (hidx : s.currentDimensionIdx = w + b)
    (hrun : (S.pruneHorizontal query data n fuel b s).Runs tr s') :
    ∃ b', Reached term embed v n w b' (L.filter (Survives term embed v h w tr)) s' ∧
      s'.currentDimensionIdx = w + b' ∧ (s'.nVectorsNotPruned = 0 ∨ b' = h) ∧
      ∀ e ∈ tr, e.1 ≤ w + h := by
  induction fuel generalizing b s tr L with
  | zero =>
    obtain ⟨rfl, rfl⟩ := runs_done_iff.mp hrun
    exact ⟨b, by simpa [Survives] using hr, hidx, Or.inr (by omega), by simp⟩
  | succ fuel ih =>
    have hdvd := hd.dvd
    unfold pruneHorizontal at hrun
    rw [hd.horizontal, hd.vertical] at hrun
    split at hrun
    · rename_i hcond
      have hblock : b + hDimSize ≤ h := by
        simp only [hDimSize] at hb hdvd ⊢
        omega
      obtain ⟨s₁, tr₁, tr₂, rfl, htest, hrest⟩ := runs_bind_iff.mp hrun
      obtain ⟨threshold, rfl, hidx₁, hr₁⟩ := (reached_block hm hr hw hb hblock).test htest
      rw [hidx, Nat.add_assoc] at hidx₁
      obtain ⟨b', hr', hidx', hend, hreads⟩ := ih (Nat.dvd_add_self_right.mpr hb) hblock
        (by simp only [hDimSize] at hblock ⊢; omega) hr₁ hidx₁ hrest
      refine ⟨b', ?_, hidx', hend, List.forall_mem_cons.mpr ⟨by simp only; omega, hreads⟩⟩
      have hat : ∀ i, partialAt term v h w (s.currentDimensionIdx + hDimSize) i =
          partialSum term v i w (b + hDimSize) := fun i => by
        rw [partialAt, if_pos (by omega), hidx, Nat.add_assoc, Nat.add_sub_cancel_left]
      rw [filter_survives_cons L hat] at hr'
      exact hr'
    · rename_i hcond
      obtain ⟨rfl, rfl⟩ := runs_done_iff.mp hrun
      exact ⟨b, by simpa [Survives] using hr, hidx, by omega, by simp⟩

omit [LinearOrder D] in
/-- One range of vertical dimensions added to the distances of the vectors not pruned. -/
theorem reached_vertical (hm : Measures S.pdxData.quantization query data v h n term embed)
    {a a' : Nat} {L : List Nat} {s : ProbeState D} (hr : Reached term embed v n a h L s)
    (haa : Aligned v a a') :
    Reached term embed v n a' h L { s with
      pruningDistances := S.pdxData.quantization.vertical true query data s.nVectorsNotPruned n
        a a' s.pruningDistances s.pruningPositions } :=
  ⟨hr.notPruned, hr.nodup, hr.lt, fun i hi => hm.vertical haa le_rfl (hr.visited_eq ▸ hr.nodup) i
    (hr.visited_eq ▸ hi) (hr.distances i hi)⟩

theorem pruneVertical_runs (hd : HasDims S v h)
    (hm : Measures S.pdxData.quantization query data v h n term embed) {w a fuel : Nat}
    {L : List Nat} {s s' : ProbeState D} {tr : List (Event Nat fun _ => D)} (hwa : w ≤ a)
    (ha : Aligned v 0 a) (hfuel : v - a ≤ fuel) (hr : Reached term embed v n a h L s)
    (hidx : s.currentDimensionIdx = a + h)
    (hrun : (S.pruneVertical query data n fuel a s).Runs tr s') :
    ∃ a', Reached term embed v n a' h (L.filter (Survives term embed v h w tr)) s' ∧
      (s'.nVectorsNotPruned = 0 ∨ a' = v) ∧ ∀ e ∈ tr, e.1 ≤ v + h := by
  obtain ⟨-, -, hav, hgroup⟩ := ha
  induction fuel generalizing a s tr L with
  | zero =>
    obtain ⟨rfl, rfl⟩ := runs_done_iff.mp hrun
    exact ⟨a, by simpa [Survives] using hr, Or.inr (by omega), by simp⟩
  | succ fuel ih =>
    unfold pruneVertical at hrun
    rw [hd.vertical, hd.total] at hrun
    split at hrun
    · rename_i hcond
      have hstep : Aligned v a (min (a + hDimSize) v) := by
        simp only [hDimSize]
        exact ⟨by omega, by omega, by omega, by omega⟩
      have hlt : a < min (a + hDimSize) v := by
        simp only [hDimSize]
        omega
      have hnext : min (s.currentDimensionIdx + hDimSize) (v + h) = min (a + hDimSize) v + h := by
        omega
      obtain ⟨s₁, tr₁, tr₂, rfl, htest, hrest⟩ := runs_bind_iff.mp hrun
      obtain ⟨threshold, rfl, hidx₁, hr₁⟩ := (reached_vertical hm hr hstep).test htest
      rw [hnext] at hidx₁ ⊢
      have hread : min (a + hDimSize) v + h ≤ v + h := by omega
      have hat : ∀ i, partialAt term v h w (min (a + hDimSize) v + h) i =
          partialSum term v i (min (a + hDimSize) v) h := fun i => by
        rw [partialAt, if_neg (by omega), Nat.add_sub_cancel]
      split at hrest
      · rename_i hlast
        obtain ⟨rfl, rfl⟩ := runs_done_iff.mp hrest
        refine ⟨min (a + hDimSize) v, ?_, Or.inr (by omega), by simp⟩
        rw [List.append_nil, ← filter_survives_cons L hat]
        simpa [Survives] using hr₁
      · obtain ⟨a', hr', hend, hreads⟩ :=
          ih (by omega) (by omega) hr₁ hidx₁ hrest hstep.2.2.1 hstep.2.2.2
        rw [filter_survives_cons L hat] at hr'
        exact ⟨a', hr', hend, List.forall_mem_cons.mpr ⟨hread, hreads⟩⟩
    · rename_i hcond
      obtain ⟨rfl, rfl⟩ := runs_done_iff.mp hrun
      exact ⟨a, by simpa [Survives] using hr, by omega, by simp⟩

/-- A vertical loop that starts without vectors does nothing. -/
theorem pruneVertical_runs_empty {a fuel : Nat} {s s' : ProbeState D}
    {tr : List (Event Nat fun _ => D)} (hs : s.nVectorsNotPruned = 0)
    (hrun : (S.pruneVertical query data n fuel a s).Runs tr s') : tr = [] ∧ s' = s := by
  cases fuel with
  | zero => exact runs_done_iff.mp hrun
  | succ fuel =>
    rw [pruneVertical, if_neg (by simp [hs])] at hrun
    exact runs_done_iff.mp hrun

omit [LinearOrder D] in
/-- A run that leaves no vector over has nothing left. -/
theorem notPruned_eq_nil {s : ProbeState D} (hs : s.nVectorsNotPruned = 0) : s.notPruned = [] := by
  simp [ProbeState.notPruned, hs]

/-- The first test of `Prune` leaves the selected vectors that are below the threshold. -/
theorem reached_initPositionsArray {filter : Option Selection} {w : Nat} {s : ProbeState D}
    (hs : ∀ i < n, filter.all (fun sel => sel.selectionVector i) →
      s.pruningDistances i = embed (partialSum term v i w 0)) (threshold : D) :
    Reached term embed v n w 0
      (((List.range n).filter fun i => filter.all fun sel => sel.selectionVector i).filter
        fun i => embed (partialSum term v i w 0) < threshold)
      { s with
        pruningPositions := (initPositionsArray n s.pruningPositions threshold s.pruningDistances
          (filter.map Selection.selectionVector)).1
        pruningThreshold := threshold
        nVectorsNotPruned := (initPositionsArray n s.pruningPositions threshold s.pruningDistances
          (filter.map Selection.selectionVector)).2 } := by
  have hselected : ∀ i ∈ ((List.range n).filter fun i => filter.all fun sel =>
      sel.selectionVector i).filter fun i => embed (partialSum term v i w 0) < threshold,
      i < n ∧ filter.all (fun sel => sel.selectionVector i) = true := fun i hi => by
    have hi := List.mem_filter.mp (List.mem_filter.mp hi).1
    exact ⟨List.mem_range.mp hi.1, hi.2⟩
  refine ⟨(initPositionsArray_kept _ _ _ _ _).trans ?_, (List.nodup_range.filter _).filter _,
    fun i hi => (hselected i hi).1, fun i hi => hs i (hselected i hi).1 (hselected i hi).2⟩
  rw [List.filter_filter]
  refine List.filter_congr fun i hi => ?_
  rw [Option.all_map]
  by_cases hsel : filter.all (fun sel => sel.selectionVector i) = true
  · rw [hs i (List.mem_range.mp hi) hsel]
    simp [hsel]
  · simp [hsel]

/-- `Prune` from a state in which the selected vectors have gone through `w` vertical dimensions:
left over are the selected vectors below every threshold read, with their full distance. -/
theorem prune_runs (hd : HasDims S v h)
    (hm : Measures S.pdxData.quantization query data v h n term embed) {filter : Option Selection}
    {w : Nat} {s s' : ProbeState D} {tr : List (Event Nat fun _ => D)} (hw : Aligned v 0 w)
    (hidx : s.currentDimensionIdx = w)
    (hs : ∀ i < n, filter.all (fun sel => sel.selectionVector i) →
      s.pruningDistances i = embed (partialSum term v i w 0))
    (hrun : (S.prune query data n filter s).Runs tr s') :
    s'.notPruned = (List.range n).filter (fun i =>
        filter.all (fun sel => sel.selectionVector i) ∧ Survives term embed v h w tr i) ∧
      (∀ i ∈ s'.notPruned, s'.pruningDistances i = embed (fullSum term v h i)) ∧
      ∀ e ∈ tr, e.1 ≤ v + h := by
  obtain ⟨threshold, tr', rfl, hnext⟩ := runs_call_iff.mp hrun
  obtain ⟨s₁, tr₁, tr₂, rfl, hhor, hver⟩ := runs_bind_iff.mp hnext
  have hwv := hw.2.2.1
  obtain ⟨b', hr₁, hidx₁, hend₁, hreads₁⟩ := pruneHorizontal_runs hd hm hwv (dvd_zero _) (Nat.zero_le h)
    (by rw [hd.horizontal]; omega) (reached_initPositionsArray hs threshold) hidx hhor
  have hat : ∀ i, partialAt term v h w s.currentDimensionIdx i = partialSum term v i w 0 :=
    fun i => by rw [partialAt, if_pos (by omega), hidx, Nat.sub_self]
  rw [filter_survives_cons _ hat] at hr₁
  have hselected : ∀ tr, (((List.range n).filter fun i => filter.all fun sel =>
      sel.selectionVector i).filter (Survives term embed v h w tr)) = (List.range n).filter (fun i =>
        filter.all (fun sel => sel.selectionVector i) ∧ Survives term embed v h w tr i) := by
    intro tr
    rw [List.filter_filter]
    refine List.filter_congr fun i _ => ?_
    rw [Bool.and_comm, Bool.decide_and, Bool.decide_eq_true]
  have hreads : ∀ tr₂ : List (Event Nat fun _ => D), (∀ e ∈ tr₂, e.1 ≤ v + h) →
      ∀ e ∈ (⟨s.currentDimensionIdx, threshold⟩ :: (tr₁ ++ tr₂) : List (Event Nat fun _ => D)),
        e.1 ≤ v + h := by
    intro tr₂ htr₂
    refine List.forall_mem_cons.mpr ⟨by simp only; omega, List.forall_mem_append.mpr ⟨?_, htr₂⟩⟩
    exact fun e he => (hreads₁ e he).trans (by omega)
  rw [hidx] at hver
  by_cases hzero : s₁.nVectorsNotPruned = 0
  · obtain ⟨rfl, rfl⟩ := pruneVertical_runs_empty hzero hver
    refine ⟨?_, by simp [notPruned_eq_nil hzero], hreads [] (by simp)⟩
    rw [List.append_nil, ← hselected, hr₁.notPruned]
  · obtain rfl : b' = h := hend₁.resolve_left hzero
    obtain ⟨a', hr₂, hend₂, hreads₂⟩ := pruneVertical_runs hd hm le_rfl hw
      (by rw [hd.vertical]; omega) hr₁ hidx₁ hver
    rw [filter_survives_append, List.cons_append, hselected] at hr₂
    refine ⟨hr₂.notPruned, fun i hi => ?_, hreads tr₂ hreads₂⟩
    have hne : s'.nVectorsNotPruned ≠ 0 := by
      intro hz
      rw [notPruned_eq_nil hz] at hi
      cases hi
    obtain rfl := hend₂.resolve_left hne
    exact hr₂.distances i (hr₂.notPruned ▸ hi)

end Runs

/-! ## The reads that decide -/

section Reads

variable {K E D : Type} [LinearOrder D] {S : Searcher K E D} {query data : Nat → E} {n : Nat}
  {s s' : ProbeState D} {tr : List (Event Nat fun _ => D)}

theorem testNotPruned_reads {idx : Nat} (hrun : (testNotPruned idx s).Runs tr s') :
    (∀ e ∈ tr, e.1 = idx) ∧ s'.currentDimensionIdx = idx := by
  obtain ⟨threshold, tr', rfl, hnext⟩ := runs_call_iff.mp hrun
  obtain ⟨rfl, rfl⟩ := runs_done_iff.mp hnext
  exact ⟨fun e he => (List.mem_singleton.mp he) ▸ rfl, rfl⟩

theorem pruneHorizontal_reads_pos {fuel b : Nat}
    (hrun : (S.pruneHorizontal query data n fuel b s).Runs tr s') : ∀ e ∈ tr, 0 < e.1 := by
  induction fuel generalizing b s tr with
  | zero =>
    obtain ⟨rfl, -⟩ := runs_done_iff.mp hrun
    simp
  | succ fuel ih =>
    unfold pruneHorizontal at hrun
    split at hrun
    · obtain ⟨s₁, tr₁, tr₂, rfl, htest, hrest⟩ := runs_bind_iff.mp hrun
      refine List.forall_mem_append.mpr ⟨fun e he => ?_, ih hrest⟩
      rw [(testNotPruned_reads htest).1 e he, hDimSize]
      omega
    · obtain ⟨rfl, -⟩ := runs_done_iff.mp hrun
      simp

theorem pruneVertical_reads_pos (hdims : 0 < S.pdxData.numDimensions) {fuel a : Nat}
    (hrun : (S.pruneVertical query data n fuel a s).Runs tr s') : ∀ e ∈ tr, 0 < e.1 := by
  induction fuel generalizing a s tr with
  | zero =>
    obtain ⟨rfl, -⟩ := runs_done_iff.mp hrun
    simp
  | succ fuel ih =>
    unfold pruneVertical at hrun
    split at hrun
    · obtain ⟨s₁, tr₁, tr₂, rfl, htest, hrest⟩ := runs_bind_iff.mp hrun
      refine List.forall_mem_append.mpr ⟨fun e he => ?_, ?_⟩
      · rw [(testNotPruned_reads htest).1 e he, hDimSize]
        omega
      · split at hrest
        · obtain ⟨rfl, -⟩ := runs_done_iff.mp hrest
          simp
        · exact ih hrest
    · obtain ⟨rfl, -⟩ := runs_done_iff.mp hrun
      simp

theorem prune_reads_pos (hdims : 0 < S.pdxData.numDimensions) {filter : Option Selection}
    (hs : 0 < s.currentDimensionIdx) (hrun : (S.prune query data n filter s).Runs tr s') :
    ∀ e ∈ tr, 0 < e.1 := by
  obtain ⟨threshold, tr', rfl, hnext⟩ := runs_call_iff.mp hrun
  obtain ⟨s₁, tr₁, tr₂, rfl, hhor, hver⟩ := runs_bind_iff.mp hnext
  refine List.forall_mem_cons.mpr ⟨hs, List.forall_mem_append.mpr ⟨?_, ?_⟩⟩
  · exact pruneHorizontal_reads_pos hhor
  · exact pruneVertical_reads_pos hdims hver

theorem warmupLoop_idx_le {tuples count : Nat} {sizes : List Nat}
    (hs : s.currentDimensionIdx ≤ S.pdxData.numVerticalDimensions)
    (hrun : (S.warmupLoop query data n tuples sizes count s).Runs tr s') :
    s.currentDimensionIdx ≤ s'.currentDimensionIdx := by
  induction sizes generalizing count s tr with
  | nil =>
    obtain ⟨-, rfl⟩ := runs_done_iff.mp hrun
    exact le_rfl
  | cons size sizes ih =>
    unfold warmupLoop at hrun
    split at hrun
    · obtain ⟨threshold, tr', rfl, hnext⟩ := runs_call_iff.mp hrun
      exact (le_min (Nat.le_add_right _ _) hs).trans (ih (min_le_right _ _) hnext)
    · obtain ⟨-, rfl⟩ := runs_done_iff.mp hrun
      exact le_rfl

/-- Without a filter `Warmup` goes through some dimensions. -/
theorem warmup_idx_pos (hdims : 0 < S.pdxData.numDimensions) (hn : 0 < n)
    (hthreshold : 0 < S.selectivityThreshold) (hrun : (S.warmup query data n none s).Runs tr s') :
    0 < s'.currentDimensionIdx := by
  obtain ⟨threshold, tr', rfl, hnext⟩ := runs_call_iff.mp hrun
  have htuples : 0 < ⌈S.selectivityThreshold * n⌉.toNat := by
    have hceil := Int.ceil_pos.mpr (mul_pos hthreshold (Nat.cast_pos.mpr hn : (0 : Rat) < n))
    omega
  have hvertical : 0 < S.pdxData.numVerticalDimensions := verticalDimensions_pos hdims
  rw [dimensionsFetchingSizes, warmupLoop, if_pos ⟨htuples, hvertical⟩] at hnext
  obtain ⟨threshold', tr'', rfl, hloop⟩ := runs_call_iff.mp hnext
  refine lt_of_lt_of_le ?_ (warmupLoop_idx_le (min_le_right _ _) hloop)
  exact lt_min (by simp only; omega) hvertical

/-- The reads that may drop vectors: where `Warmup` has gone through some dimensions, not its first
one. -/
def MayDrop (S : Searcher K E D) (filter : Option Selection) (currentDimensionIdx : Nat) : Prop :=
  filter = none → 0 < S.pdxData.numDimensions → 0 < S.selectivityThreshold → 0 < currentDimensionIdx

end Reads

section Runs

variable {K E D M : Type} [LinearOrder D] [AddCommMonoid M] {S : Searcher K E D}
  {query data : Nat → E} {n : Nat} {term : Nat → Nat → M} {embed : M → D} {v h : Nat}

/-- The runs of `Warmup` followed by `Prune`, for every sequence of threshold reads. -/
theorem probe_runs (hd : HasDims S v h)
    (hm : Measures S.pdxData.quantization query data v h n term embed) {filter : Option Selection}
    {s s' : ProbeState D} {tr : List (Event Nat fun _ => D)}
    (hrun : (S.probe query data n filter s).Runs tr s') :
    ∃ w trWarmup trPrune, w ≤ v ∧ tr = trWarmup ++ trPrune ∧
      s'.notPruned = (List.range n).filter (fun i =>
        filter.all (fun sel => sel.selectionVector i) ∧ Survives term embed v h w trPrune i) ∧
      (∀ i ∈ s'.notPruned, s'.pruningDistances i = embed (fullSum term v h i)) ∧
      (∀ e ∈ tr, e.1 ≤ v + h) ∧ (0 < n → ∀ e ∈ trPrune, S.MayDrop filter e.1) := by
  obtain ⟨s₁, tr₁, tr₂, rfl, hwarmup, hprune⟩ := runs_bind_iff.mp hrun
  obtain ⟨haligned, hreads₁, hdist⟩ := warmup_runs hd hm hwarmup
  obtain ⟨hkept, hfull, hreads₂⟩ := prune_runs hd hm haligned rfl hdist hprune
  refine ⟨_, tr₁, tr₂, haligned.2.2.1, rfl, hkept, hfull, List.forall_mem_append.mpr
    ⟨fun e he => (hreads₁ e he).trans (Nat.le_add_right v h), hreads₂⟩, ?_⟩
  rintro hn e he rfl hdims hthreshold
  exact prune_reads_pos hdims (warmup_idx_pos hdims hn hthreshold hwarmup) hprune e he

end Runs

end Searcher

end PDXearch
