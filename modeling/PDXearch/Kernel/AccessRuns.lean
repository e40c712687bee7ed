import PDXearch.Kernel.ComputerLoads
import PDXearch.Kernel.ProbeAccesses

/-!
# Every access of a probe

What the runs of `Searcher.probeAccesses` access, for every sequence of threshold reads. `Access.Ok`
says where an access lies; what it says of the distances is left to a property `P c x` of a
distance `x` that `c` dimensions were added to. `Searcher.probeAccesses_ok` goes through the loops
with it, and also bounds their iterations by the number of dimensions.

With no property of the distances, this puts every load of a probe into its array when the
computer's loads for aligned ranges and for blocks are (`probesInRange_of_loads`).
-/

namespace PDXearch

open Lib Client

section Ok

variable {K E D : Type}

/-- `P c` holds of every distance that at most `c` dimensions were added to, from zero or from
the mark of a vector that is not selected. -/
structure Bounded (Q : Quantization K E D) (query data : Nat → E) (n : Nat)
    (P : Nat → D → Prop) : Prop where
  zero : P 0 Q.zero
  halfMax : P 0 Q.halfMax
  mono : ∀ {c c' : Nat} {x : D}, c ≤ c' → P c x → P c' x
  vertical : ∀ {skip : Bool} {m a b c : Nat} {distances : Nat → D} {positions : Nat → Nat},
    (visited skip positions m).Nodup → a ≤ b → (∀ i < n, P c (distances i)) →
    ∀ i < n, P (c + (b - a)) (Q.vertical skip query data m n a b distances positions i)
  horizontal : ∀ {c : Nat} {x : D} (vector1 vector2 : Nat → E), P c x →
    P (c + hDimSize) (Q.add x (Q.horizontal vector1 vector2 hDimSize))

theorem Bounded.reset {Q : Quantization K E D} {query data : Nat → E} {n : Nat}
    {P : Nat → D → Prop} (hp : Bounded Q query data n P) (distances : Nat → D) :
    ∀ i < n, P 0 (resetPruningDistances Q n distances i) := by
  intro i hi
  rw [resetPruningDistances_apply, if_pos hi]
  exact hp.zero

/-- A pass over all vectors visits each of them once. -/
theorem visited_all (positions : Nat → Nat) (n : Nat) :
    (visited false positions n).Nodup ∧ ∀ i ∈ visited false positions n, i < n := by
  rw [visited_false]
  exact ⟨List.nodup_range, fun i hi => List.mem_range.mp hi⟩

/-- Where an access lies in a cluster of `n` vectors with `v` vertical and `h` horizontal
dimensions. -/
def Access.Ok (v h n : Nat) (P : Nat → D → Prop) : Access D → Prop
  | .threshold currentDimensionIdx => currentDimensionIdx ≤ v + h
  | .fetchingSize curSubgroupingSizeIdx =>
    curSubgroupingSizeIdx < dimensionsFetchingSizes.length
  | .vertical skipPruned nVectors startDimension endDimension distances positions =>
    Aligned v startDimension endDimension ∧
    (visited skipPruned positions nVectors).Nodup ∧
    (∀ i ∈ visited skipPruned positions nVectors, i < n) ∧
    ∃ c, c + (endDimension - startDimension) ≤ v + h ∧ ∀ i < n, P c (distances i)
  | .horizontal offsetQuery dataPos distance =>
    ∃ b i, hDimSize ∣ b ∧ b + hDimSize ≤ h ∧ i < n ∧ offsetQuery = v + b ∧
      dataPos = v * n + b * n + i * hDimSize ∧ ∃ c, c + hDimSize ≤ v + h ∧ P c distance
  | .assertion holds => holds

/-- The vectors not pruned are different vectors of the cluster. -/
structure Candidates (n : Nat) (s : ProbeState D) : Prop where
  nodup : s.notPruned.Nodup
  lt : ∀ i ∈ s.notPruned, i < n

theorem Candidates.of_filter [LinearOrder D] {n : Nat} {s : ProbeState D} {L : List Nat}
    {p : Nat → Bool} (hs : s.notPruned = L.filter p) (hnd : L.Nodup) (hlt : ∀ i ∈ L, i < n) :
    Candidates n s where
  nodup := by
    rw [hs]
    exact hnd.filter p
  lt := by
    rw [hs]
    exact fun i hi => hlt i (List.mem_filter.mp hi).1

end Ok

namespace Searcher

variable {K E D : Type} {S : Searcher K E D} {query data : Nat → E} {n v h : Nat}
  {P : Nat → D → Prop}

/-- One horizontal block added to the distances of the given vectors. -/
theorem horizontalPass_ok (hp : Bounded S.pdxData.quantization query data n P) {b c : Nat}
    (hb : hDimSize ∣ b) (hbh : b + hDimSize ≤ h) (hc : c + hDimSize ≤ v + h) {vectors : List Nat}
    (hnd : vectors.Nodup) (hlt : ∀ i ∈ vectors, i < n) {distances : Nat → D}
    (hold : ∀ i ∈ vectors, P c (distances i)) (hall : ∀ i < n, P (c + hDimSize) (distances i))
    {tr : List (Event (Access D) Access.Answer)} {distances' : Nat → D}
    (hrun : (S.horizontalPass query data (v + b) (v * n + b * n) vectors distances).Runs tr
      distances') :
    (∀ e ∈ tr, e.1.Ok v h n P) ∧ ∀ i < n, P (c + hDimSize) (distances' i) := by
  induction vectors generalizing distances tr with
  | nil =>
    obtain ⟨rfl, rfl⟩ := runs_done_iff.mp hrun
    exact ⟨by simp, hall⟩
  | cons vIdx vectors ih =>
    obtain ⟨hvIdx, hnd⟩ := List.nodup_cons.mp hnd
    obtain ⟨_, tr', rfl, hnext⟩ := runs_call_iff.mp hrun
    have hfirst := hold vIdx List.mem_cons_self
    -- the vectors still to come have their old distances
    have hrest : ∀ (x : D), ∀ i ∈ vectors, P c (Function.update distances vIdx x i) := by
      intro x i hi
      rw [Function.update_of_ne (ne_of_mem_of_not_mem hi hvIdx)]
      exact hold i (List.mem_cons_of_mem _ hi)
    obtain ⟨hok, hres⟩ := ih hnd (fun i hi => hlt i (List.mem_cons_of_mem _ hi)) (hrest _)
      (fun i hi => by
        by_cases heq : i = vIdx
        · subst heq
          rw [Function.update_self]
          exact hp.horizontal _ _ hfirst
        · rw [Function.update_of_ne heq]
          exact hall i hi) hnext
    refine ⟨List.forall_mem_cons.mpr ⟨?_, hok⟩, hres⟩
    exact ⟨b, vIdx, hb, hbh, hlt vIdx List.mem_cons_self, rfl, rfl, c, hc, hfirst⟩

variable [LinearOrder D]

/-- The loop of `Warmup`, from an aligned dimension and an entry of the table that is not too far
behind. -/
theorem warmupLoopAccesses_ok (hd : HasDims S v h)
    (hp : Bounded S.pdxData.quantization query data n P) {tuples fuel idx count : Nat}
    {s : ProbeState D} (hs : Aligned v 0 s.currentDimensionIdx)
    (hsum : v ≤ s.currentDimensionIdx + (dimensionsFetchingSizes.drop idx).sum)
    (hfuel : v - s.currentDimensionIdx < fuel)
    (hdist : ∀ i < n, P s.currentDimensionIdx (s.pruningDistances i))
    {tr : List (Event (Access D) Access.Answer)} {r : Option (ProbeState D)}
    (hrun : (S.warmupLoopAccesses query data n tuples fuel idx count s).Runs tr r) :
    (∀ e ∈ tr, e.1.Ok v h n P) ∧ ∃ s', r = some s' ∧ Aligned v 0 s'.currentDimensionIdx ∧
      ∀ i < n, P s'.currentDimensionIdx (s'.pruningDistances i) := by
  induction fuel generalizing idx count s tr with
  | zero => omega
  | succ fuel ih =>
    unfold warmupLoopAccesses at hrun
    split at hrun
    · rename_i hcond
      rw [hd.vertical] at hcond hrun
      obtain ⟨hidx, hdrop⟩ := drop_fetchingSizes hcond.2 hsum
      have hmem : dimensionsFetchingSizes.getD idx 0 ∈ dimensionsFetchingSizes := by
        rw [List.getD_eq_getElem _ _ hidx]
        exact List.getElem_mem hidx
      have hpos := fetchingSizes_pos _ hmem
      have hdvd := allFetchingSizesMultipleOfU8InterleaveSize _ hmem
      rw [hdrop, List.sum_cons] at hsum
      generalize dimensionsFetchingSizes.getD idx 0 = size at *
      simp only [u8InterleaveSize] at hdvd
      obtain ⟨-, -, hle, hend⟩ := hs
      have hstep : Aligned v s.currentDimensionIdx (min (s.currentDimensionIdx + size) v) :=
        ⟨by omega, by omega, by omega, by omega⟩
      obtain ⟨_, tr₁, rfl, hrun₁⟩ := runs_call_iff.mp hrun
      obtain ⟨_, tr₂, rfl, hrun₂⟩ := runs_call_iff.mp hrun₁
      obtain ⟨threshold, tr₃, rfl, hrun₃⟩ := runs_call_iff.mp hrun₂
      obtain ⟨hnd, hlt⟩ := visited_all s.pruningPositions n
      have hnext := hp.vertical hnd hstep.2.1 hdist
      rw [Nat.add_sub_cancel' hstep.2.1] at hnext
      obtain ⟨hok, hres⟩ := ih (s := { s with
          pruningDistances := _
          pruningThreshold := threshold
          currentDimensionIdx := min (s.currentDimensionIdx + size) v })
        ⟨dvd_zero 4, Nat.zero_le _, hstep.2.2.1, hstep.2.2.2⟩ (by simp only; omega)
        (by simp only; omega) hnext hrun₃
      refine ⟨?_, hres⟩
      simp only [List.forall_mem_cons]
      refine ⟨hidx, ⟨hstep, hnd, hlt, s.currentDimensionIdx, by omega, hdist⟩, ?_, hok⟩
      show min (s.currentDimensionIdx + size) v ≤ v + h
      omega
    · obtain ⟨rfl, rfl⟩ := runs_done_iff.mp hrun
      exact ⟨by simp, s, rfl, hs, hdist⟩

theorem warmupAccesses_ok (hd : HasDims S v h) (hdims : v + h ≤ pdxMaxDims)
    (hp : Bounded S.pdxData.quantization query data n P) {filter : Option Selection} {fuel : Nat}
    {s : ProbeState D} (hfuel : v + h < fuel) {tr : List (Event (Access D) Access.Answer)}
    {r : Option (ProbeState D)} (hrun : (S.warmupAccesses query data n filter fuel s).Runs tr r) :
    (∀ e ∈ tr, e.1.Ok v h n P) ∧ ∃ s', r = some s' ∧ Aligned v 0 s'.currentDimensionIdx ∧
      ∀ i < n, P s'.currentDimensionIdx (s'.pruningDistances i) := by
  have halign := aligned_zero v
  have hsum : v ≤ 0 + (dimensionsFetchingSizes.drop 0).sum := by
    have htable := pdxMaxDims_le_sum
    rw [List.drop_zero]
    omega
  have hreset := hp.reset s.pruningDistances
  cases filter with
  | none =>
    obtain ⟨threshold, tr', rfl, hnext⟩ := runs_call_iff.mp hrun
    obtain ⟨hok, hres⟩ := warmupLoopAccesses_ok hd hp halign hsum (by simp only; omega) hreset hnext
    exact ⟨List.forall_mem_cons.mpr ⟨Nat.zero_le _, hok⟩, hres⟩
  | some selection =>
    have hmask : ∀ i < n, P 0 (maskDistancesWithSelectionVector S.pdxData.quantization n
        (resetPruningDistances S.pdxData.quantization n s.pruningDistances)
        selection.selectionVector i) := by
      intro i hi
      rw [maskDistancesWithSelectionVector_apply, if_pos hi]
      split_ifs
      · exact hp.halfMax
      · exact hreset i hi
    unfold warmupAccesses at hrun
    simp only at hrun
    split at hrun
    · obtain ⟨rfl, rfl⟩ := runs_done_iff.mp hrun
      exact ⟨by simp, _, rfl, halign, hmask⟩
    · obtain ⟨threshold, tr', rfl, hnext⟩ := runs_call_iff.mp hrun
      obtain ⟨hok, hres⟩ := warmupLoopAccesses_ok hd hp halign hsum (by simp only; omega) hmask
        hnext
      exact ⟨List.forall_mem_cons.mpr ⟨Nat.zero_le _, hok⟩, hres⟩

theorem candidates_keepBelow {s : ProbeState D} (hs : Candidates n s) (idx : Nat) (threshold : D) :
    Candidates n (keepBelow idx threshold s) :=
  .of_filter (evaluatePruningPredicateOnPositionsArray_kept _ _ _ _) hs.nodup hs.lt

/-- The loop over the horizontal blocks: both counters move by a block. -/
theorem pruneHorizontalAccesses_ok (hd : HasDims S v h)
    (hp : Bounded S.pdxData.quantization query data n P) {w b fuel : Nat} {s : ProbeState D}
    (hw : w ≤ v) (hb : hDimSize ∣ b) (hbh : b ≤ h) (hfuel : h - b < fuel)
    (hs : Candidates n s) (hidx : s.currentDimensionIdx = w + b)
    (hdist : ∀ i < n, P (w + b) (s.pruningDistances i))
    {tr : List (Event (Access D) Access.Answer)} {r : Option (Nat × ProbeState D)}
    (hrun : (S.pruneHorizontalAccesses query data n w fuel b s).Runs tr r) :
    (∀ e ∈ tr, e.1.Ok v h n P) ∧ ∃ b' s', r = some (b', s') ∧ Candidates n s' ∧
      s'.currentDimensionIdx = w + b' ∧ (∀ i < n, P (w + b') (s'.pruningDistances i)) ∧
      (s'.nVectorsNotPruned = 0 ∨ b' = h) := by
  induction fuel generalizing b s tr with
  | zero => omega
  | succ fuel ih =>
    have hdvd := hd.dvd
    unfold pruneHorizontalAccesses at hrun
    rw [hd.horizontal, hd.vertical] at hrun
    split at hrun
    · rename_i hcond
      have hblock : b + hDimSize ≤ h := by
        simp only [hDimSize] at hb hdvd ⊢
        omega
      obtain ⟨distances, tr₁, tr₂, rfl, hpass, hrest⟩ := runs_bind_iff.mp hrun
      obtain ⟨threshold, tr₃, rfl, hrest₁⟩ := runs_call_iff.mp hrest
      obtain ⟨_, tr₄, rfl, hrest₂⟩ := runs_call_iff.mp hrest₁
      obtain ⟨hok, hnext⟩ := horizontalPass_ok hp hb hblock (c := w + b) (by omega) hs.nodup hs.lt
        (fun i hi => hdist i (hs.lt i hi)) (fun i hi => hp.mono (Nat.le_add_right _ _) (hdist i hi))
        hpass
      rw [Nat.add_assoc] at hnext
      have hcandidates : Candidates n { s with pruningDistances := distances } :=
        ⟨hs.nodup, hs.lt⟩
      have hvisited : s.currentDimensionIdx + hDimSize = w + (b + hDimSize) := by omega
      obtain ⟨hok', hres⟩ := ih (Nat.dvd_add_self_right.mpr hb) hblock
        (by simp only [hDimSize] at hblock ⊢; omega)
        (candidates_keepBelow hcandidates (s.currentDimensionIdx + hDimSize) threshold) hvisited
        hnext hrest₂
      refine ⟨List.forall_mem_append.mpr ⟨hok, ?_⟩, hres⟩
      simp only [List.forall_mem_cons]
      refine ⟨?_, decide_eq_true hvisited, hok'⟩
      show s.currentDimensionIdx + hDimSize ≤ v + h
      omega
    · rename_i hcond
      obtain ⟨rfl, rfl⟩ := runs_done_iff.mp hrun
      exact ⟨by simp, b, s, rfl, hs, hidx, hdist, by omega⟩

/-- The loop over the vertical dimensions that are left. With a vector left over, all horizontal
blocks are behind. -/
theorem pruneVerticalAccesses_ok (hd : HasDims S v h)
    (hp : Bounded S.pdxData.quantization query data n P) {a b fuel : Nat} {s : ProbeState D}
    (ha : Aligned v 0 a) (hfuel : v - a < fuel) (hs : Candidates n s)
    (hleft : s.nVectorsNotPruned ≠ 0 → b = h ∧ s.currentDimensionIdx = a + h ∧
      ∀ i < n, P (a + h) (s.pruningDistances i))
    {tr : List (Event (Access D) Access.Answer)} {r : Option (ProbeState D)}
    (hrun : (S.pruneVerticalAccesses query data n b fuel a s).Runs tr r) :
    (∀ e ∈ tr, e.1.Ok v h n P) ∧ ∃ s', r = some s' := by
  induction fuel generalizing a s tr with
  | zero => omega
  | succ fuel ih =>
    unfold pruneVerticalAccesses at hrun
    rw [hd.vertical, hd.total] at hrun
    split at hrun
    · rename_i hcond
      obtain ⟨rfl, hidx, hdist⟩ := hleft hcond.1
      obtain ⟨-, -, hle, hend⟩ := ha
      have hstep : Aligned v a (min (a + hDimSize) v) := by
        simp only [hDimSize]
        exact ⟨by omega, by omega, by omega, by omega⟩
      have hvisited : min (s.currentDimensionIdx + hDimSize) (v + b) =
          min (a + hDimSize) v + b := by
        omega
      obtain ⟨_, tr₁, rfl, hrun₁⟩ := runs_call_iff.mp hrun
      obtain ⟨_, tr₂, rfl, hrun₂⟩ := runs_call_iff.mp hrun₁
      obtain ⟨threshold, tr₃, rfl, hrun₃⟩ := runs_call_iff.mp hrun₂
      have hnotPruned : visited true s.pruningPositions s.nVectorsNotPruned = s.notPruned :=
        visited_true _ _
      have hnd : (visited true s.pruningPositions s.nVectorsNotPruned).Nodup :=
        hnotPruned ▸ hs.nodup
      have hnext := hp.vertical hnd hstep.2.1 hdist
      rw [show a + b + (min (a + hDimSize) v - a) = min (a + hDimSize) v + b by omega] at hnext
      have hrest : (∀ e ∈ tr₃, e.1.Ok v b n P) ∧ ∃ s', r = some s' := by
        simp only at hrun₃
        split at hrun₃
        · obtain ⟨rfl, rfl⟩ := runs_done_iff.mp hrun₃
          exact ⟨by simp, _, rfl⟩
        · have hcandidates : Candidates n { s with
              pruningDistances := S.pdxData.quantization.vertical true query data
                s.nVectorsNotPruned n a (min (a + hDimSize) v) s.pruningDistances
                s.pruningPositions } := ⟨hs.nodup, hs.lt⟩
          exact ih ⟨dvd_zero 4, Nat.zero_le _, hstep.2.2.1, hstep.2.2.2⟩
            (by simp only [hDimSize]; omega) (candidates_keepBelow hcandidates _ threshold)
            (fun _ => ⟨rfl, hvisited, hnext⟩) hrun₃
      refine ⟨?_, hrest.2⟩
      simp only [List.forall_mem_cons]
      refine ⟨⟨hstep, hnd, hnotPruned ▸ hs.lt, a + b, by omega, hdist⟩,
        decide_eq_true hvisited, ?_, hrest.1⟩
      show min (s.currentDimensionIdx + hDimSize) (v + b) ≤ v + b
      omega
    · obtain ⟨rfl, rfl⟩ := runs_done_iff.mp hrun
      exact ⟨by simp, s, rfl⟩

theorem pruneAccesses_ok (hd : HasDims S v h)
    (hp : Bounded S.pdxData.quantization query data n P) {filter : Option Selection} {fuel : Nat}
    {s : ProbeState D} (hfuel : v + h < fuel) (hs : Aligned v 0 s.currentDimensionIdx)
    (hdist : ∀ i < n, P s.currentDimensionIdx (s.pruningDistances i))
    {tr : List (Event (Access D) Access.Answer)} {r : Option (ProbeState D)}
    (hrun : (S.pruneAccesses query data n filter fuel s).Runs tr r) :
    (∀ e ∈ tr, e.1.Ok v h n P) ∧ ∃ s', r = some s' := by
  have hwv := hs.2.2.1
  obtain ⟨threshold, tr', rfl, hnext⟩ := runs_call_iff.mp hrun
  obtain ⟨r₁, tr₁, tr₂, rfl, hhor, hver⟩ := runs_bind_iff.mp hnext
  have hcandidates : Candidates n { s with
      pruningPositions := (initPositionsArray n s.pruningPositions threshold s.pruningDistances
        (filter.map Selection.selectionVector)).1
      pruningThreshold := threshold
      nVectorsNotPruned := (initPositionsArray n s.pruningPositions threshold s.pruningDistances
        (filter.map Selection.selectionVector)).2 } :=
    .of_filter (initPositionsArray_kept _ _ _ _ _) List.nodup_range
      fun i hi => List.mem_range.mp hi
  obtain ⟨hok₁, b, s₁, rfl, hs₁, hidx₁, hdist₁, hend₁⟩ := pruneHorizontalAccesses_ok hd hp hwv
    (dvd_zero _) (Nat.zero_le h) (by omega) hcandidates rfl hdist hhor
  obtain ⟨hok₂, hres⟩ := pruneVerticalAccesses_ok hd hp hs (by omega) hs₁ (fun hne => by
    obtain rfl := hend₁.resolve_left hne
    exact ⟨rfl, hidx₁, hdist₁⟩) hver
  refine ⟨List.forall_mem_cons.mpr ⟨?_, List.forall_mem_append.mpr ⟨hok₁, hok₂⟩⟩, hres⟩
  show s.currentDimensionIdx ≤ v + h
  omega

/-- Every access of a probe, whatever the thresholds, lies where it should, and no loop runs out of
fuel. -/
theorem probeAccesses_ok (hd : HasDims S v h) (hdims : v + h ≤ pdxMaxDims)
    (hp : Bounded S.pdxData.quantization query data n P) {filter : Option Selection} {fuel : Nat}
    {s : ProbeState D} (hfuel : v + h < fuel) {tr : List (Event (Access D) Access.Answer)}
    {r : Option (ProbeState D)} (hrun : (S.probeAccesses query data n filter fuel s).Runs tr r) :
    (∀ e ∈ tr, e.1.Ok v h n P) ∧ ∃ s', r = some s' := by
  obtain ⟨r₁, tr₁, tr₂, rfl, hwarmup, hprune⟩ := runs_bind_iff.mp hrun
  obtain ⟨hok₁, s₁, rfl, halign, hdist⟩ := warmupAccesses_ok hd hdims hp hfuel hwarmup
  obtain ⟨hok₂, hres⟩ := pruneAccesses_ok hd hp hfuel halign hdist hprune
  exact ⟨List.forall_mem_append.mpr ⟨hok₁, hok₂⟩, hres⟩

end Searcher

/-! ## In range -/

/-- The entries of `ratios` that `GetPruningThreshold` reads. -/
def ADSamplingPruner.ratioReads {K : Type} (pruner : ADSamplingPruner K)
    (currentDimensionIdx : Nat) : List Nat :=
  if currentDimensionIdx = pruner.numDimensions then [] else [currentDimensionIdx]

/-- Other entries do not matter. -/
theorem ADSamplingPruner.ratioAt_congr {K : Type} [Field K] [LinearOrder K]
    {pruner pruner' : ADSamplingPruner K} (hdims : pruner.numDimensions = pruner'.numDimensions)
    {idx : Nat} (hreads : ∀ i ∈ pruner.ratioReads idx, pruner.ratios i = pruner'.ratios i) :
    pruner.ratioAt idx = pruner'.ratioAt idx := by
  rw [ratioAt, ratioAt, ← hdims]
  split_ifs with hlast
  · rfl
  · exact hreads idx (by rw [ratioReads, if_neg hlast]; exact List.mem_singleton_self idx)

/-- An access to a cluster of `n` vectors is in range: the table and the ratios are read below
their lengths, the loads of the computer stay within query and cluster, and an assertion holds.
What a range of vertical dimensions makes the U8 computers add up is what was stored for these
dimensions. -/
def Access.InRange {K E D : Type} (computer : Computer) (S : Searcher K E D) (n : Nat) :
    Access D → Prop
  | .threshold currentDimensionIdx =>
    ∀ i ∈ S.pruner.ratioReads currentDimensionIdx, i < S.pdxData.numDimensions
  | .fetchingSize curSubgroupingSizeIdx => curSubgroupingSizeIdx < 20
  | .vertical skipPruned nVectors startDimension endDimension _ positions =>
    let v := S.pdxData.numVerticalDimensions
    let h := S.pdxData.numHorizontalDimensions
    (4 ∣ startDimension ∧ (4 ∣ endDimension ∨ endDimension = v)) ∧
    (∀ load ∈ computer.vertical skipPruned positions nVectors n startDimension endDimension,
      load.Within S.pdxData.numDimensions (n * S.pdxData.numDimensions)) ∧
    ∀ acc ∈ verticalU8Accumulations (visited skipPruned positions nVectors) n startDimension
      endDimension, ∀ r ∈ acc.reads, ∀ (input : Nat → Nat → UInt8) (buffer : Nat → UInt8),
        store (storeClusterEmbeddingsU8 v h n input) buffer r.2 = input acc.vectorIdx r.1
  | .horizontal offsetQuery dataPos _ =>
    ∀ load ∈ computer.horizontal offsetQuery dataPos hDimSize,
      load.Within S.pdxData.numDimensions (n * S.pdxData.numDimensions)
  | .assertion holds => holds = true

/-- Whatever the selection, the arrays left over and the thresholds that `Warmup` and `Prune` read,
both come to their end, as the programs of `Searcher.probe` do, and every access on the way is in
range. -/
def Searcher.ProbesInRange {K E D : Type} [LinearOrder D] (computer : Computer)
    (S : Searcher K E D) (query data : Nat → E) (n : Nat) : Prop :=
  ∀ (filter : Option Selection) (s : ProbeState D) (fuel : Nat), S.pdxData.numDimensions < fuel →
    Sim (fun r s' => r = some s')
        ((S.probeAccesses query data n filter fuel s).interp Access.erase)
        (S.probe query data n filter s) ∧
      ∀ tr r, (S.probeAccesses query data n filter fuel s).Runs tr r →
        r.isSome ∧ ∀ e ∈ tr, e.1.InRange computer S n

section InRange

variable {K E D : Type} {S : Searcher K E D} {n v h : Nat}

/-- A range of vertical dimensions, when the computer's loads for such ranges are within. -/
theorem vertical_inRange (hd : Searcher.HasDims S v h) {computer : Computer} {skip : Bool}
    {m a b : Nat} {distances : Nat → D} {positions : Nat → Nat} (hab : Aligned v a b)
    (hlt : ∀ i ∈ visited skip positions m, i < n)
    (hloads : ∀ load ∈ computer.vertical skip positions m n a b,
      load.Within (v + h) (n * (v + h))) :
    (Access.vertical skip m a b distances positions).InRange computer S n := by
  have hh := hd.dvd
  have hbv := hab.2.2.1
  simp only [Access.InRange]
  rw [hd.vertical, hd.horizontal, hd.total]
  refine ⟨⟨hab.1, hab.2.2.2⟩, hloads, fun acc hacc r hr input buffer => ?_⟩
  obtain ⟨hmem, -, hrb, hcell⟩ := verticalU8_reads hab hacc hr
  have hstored : readU8 v n (store (storeClusterEmbeddingsU8 v h n input) buffer)
      acc.vectorIdx r.1 = input acc.vectorIdx r.1 :=
    readU8_store hh buffer (hlt _ hmem) (by omega)
  rw [readU8_eq_cellU8] at hstored
  rw [hcell, hstored]

/-- The block of a vector ends within the cluster. -/
theorem horizontal_cells_le {v h n b i : Nat} (hbh : b + hDimSize ≤ h) (hi : i < n) :
    v * n + b * n + i * hDimSize + hDimSize ≤ n * (v + h) := by
  have hrow : i * hDimSize + hDimSize ≤ n * hDimSize := by
    rw [← Nat.succ_mul]
    exact Nat.mul_le_mul_right hDimSize hi
  calc v * n + b * n + i * hDimSize + hDimSize ≤ v * n + b * n + n * hDimSize := by omega
    _ = n * (v + (b + hDimSize)) := by ring
    _ ≤ n * (v + h) := Nat.mul_le_mul_left n (Nat.add_le_add_left hbh v)

/-- Where an access lies, it is in range on a computer whose vertical and horizontal loads are. -/
theorem Access.Ok.inRange (hd : Searcher.HasDims S v h)
    (hpruner : S.pruner.numDimensions = S.pdxData.numDimensions) {computer : Computer}
    (hvertical : ∀ {skip : Bool} {positions : Nat → Nat} {m a b : Nat}, Aligned v a b →
      (∀ i ∈ visited skip positions m, i < n) →
      ∀ load ∈ computer.vertical skip positions m n a b, load.Within (v + h) (n * (v + h)))
    (hhorizontal : ∀ {offsetQuery dataPos : Nat}, offsetQuery + hDimSize ≤ v + h →
      dataPos + hDimSize ≤ n * (v + h) →
      ∀ load ∈ computer.horizontal offsetQuery dataPos hDimSize,
        load.Within (v + h) (n * (v + h)))
    {P : Nat → D → Prop} {access : Access D} (hok : access.Ok v h n P) :
    access.InRange computer S n := by
  have htotal := hd.total
  cases access with
  | threshold idx =>
    intro i hi
    rw [ADSamplingPruner.ratioReads] at hi
    split_ifs at hi with hlast
    · cases hi
    · obtain rfl := List.mem_singleton.mp hi
      have hle : i ≤ v + h := hok
      omega
  | fetchingSize idx => exact hok
  | vertical skip m a b distances positions =>
    obtain ⟨hab, -, hlt, -⟩ := hok
    exact vertical_inRange hd hab hlt (hvertical hab hlt)
  | horizontal offsetQuery dataPos distance =>
    obtain ⟨b, i, -, hbh, hi, rfl, rfl, -⟩ := hok
    simp only [Access.InRange]
    rw [htotal]
    exact hhorizontal (by omega) (horizontal_cells_le hbh hi)
  | assertion holds => exact hok

variable [LinearOrder D]

/-- All probes are in range on a computer whose loads for aligned ranges and for blocks are. -/
theorem probesInRange_of_loads (hd : Searcher.HasDims S v h) (hdims : v + h ≤ pdxMaxDims)
    (hpruner : S.pruner.numDimensions = S.pdxData.numDimensions) {computer : Computer}
    (hvertical : ∀ {skip : Bool} {positions : Nat → Nat} {m a b : Nat}, Aligned v a b →
      (∀ i ∈ visited skip positions m, i < n) →
      ∀ load ∈ computer.vertical skip positions m n a b, load.Within (v + h) (n * (v + h)))
    (hhorizontal : ∀ {offsetQuery dataPos : Nat}, offsetQuery + hDimSize ≤ v + h →
      dataPos + hDimSize ≤ n * (v + h) →
      ∀ load ∈ computer.horizontal offsetQuery dataPos hDimSize,
        load.Within (v + h) (n * (v + h)))
    (query data : Nat → E) : S.ProbesInRange computer query data n := by
  have htotal := hd.total
  have hbounded : Bounded S.pdxData.quantization query data n (fun _ _ => True) :=
    ⟨trivial, trivial, fun _ _ => trivial, fun _ _ _ _ _ => trivial, fun _ _ _ => trivial⟩
  intro filter s fuel hfuel
  refine ⟨Searcher.probeAccesses_sim (htotal ▸ hdims) hfuel, fun tr r hrun => ?_⟩
  obtain ⟨hok, s', rfl⟩ := Searcher.probeAccesses_ok hd hdims hbounded (htotal ▸ hfuel) hrun
  exact ⟨rfl, fun e he => (hok e he).inRange hd hpruner hvertical hhorizontal⟩

end InRange

/-- An index of 134 dimensions, 6 of them vertical, so that a group and a compact tail of two
dimensions are followed by two horizontal blocks. -/
def sixVertical : Searcher Rat UInt8 Nat :=
  Searcher.new ⟨134, 0, fun _ => 0, fun _ => 1⟩
    { numDimensions := 134
      totalNumEmbeddings := 3
      numClusters := 1
      clusters := [⟨3, fun i => i, fun k => UInt8.ofNat k⟩]
      isNormalized := false
      centroids := fun _ => 0
      quantization := Quantization.u8 255 ⟨0, 1⟩ }

end PDXearch
