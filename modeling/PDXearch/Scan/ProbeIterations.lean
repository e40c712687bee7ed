import PDXearch.Scan.FilteredScan
import PDXearch.Lib.FloatRounding
import Mathlib.Order.Bounds.Basic

/-!
# The bound on the number of iterations

`max_num_probe_iterations` is initialised by a call of `GetMaximumNumberOfProbeIterations`, in the
order of the declarations and before the body of the constructor sets the number of clusters that the
first iteration probes. The function reads zero for it, so that the bound counts all clusters as
left for the follow-up iterations, and its early return for a first iteration that probes all
clusters is never taken. The division is one of floats.
-/

namespace PDXearch

open Lib

/-- The members of `PhysicalFilteredScanGlobalSinkState` that count clusters and iterations. -/
structure IterationMembers where
  partitionsToProbePerRowGroupOnFirstIteration : Nat
  numProbeIterationsPerformedThusFar : Nat
  maxNumProbeIterations : Nat

/-- `std::ceil(static_cast<float>(remaining) / 5)` -/
def followUpIterations (remaining : Nat) : Nat :=
  ⌈roundFloat fltMantDig (roundFloat fltMantDig (remaining : Rat) /
    partitionsToProbePerRowGroupPerFollowUpIteration)⌉.toNat

namespace IterationMembers

/-- The default member initialisers, each of which reads the members before it. -/
def initialise (numClustersPerRowGroup : Nat) : IterationMembers :=
  let first := 0
  { partitionsToProbePerRowGroupOnFirstIteration := first
    numProbeIterationsPerformedThusFar := 0
    maxNumProbeIterations := if numClustersPerRowGroup ≤ first then 1
      else 1 + followUpIterations (numClustersPerRowGroup - first) }

/-- The constructor: the initialisers, then the body. -/
def construct (numClustersPerRowGroup nProbe : Nat) : IterationMembers :=
  { initialise numClustersPerRowGroup with
    partitionsToProbePerRowGroupOnFirstIteration :=
      if nProbe = 0 ∨ numClustersPerRowGroup < nProbe then numClustersPerRowGroup else nProbe }

/-- The number of clusters that a row group's search has gone through after `m` iterations, were there
enough of them. -/
def cursor (s : IterationMembers) (m : Nat) : Nat :=
  s.partitionsToProbePerRowGroupOnFirstIteration +
    partitionsToProbePerRowGroupPerFollowUpIteration * (m - 1)

/-- The bound is the least number of iterations that go through all clusters: after it nothing is
left, and every iteration up to it has a cluster to probe. -/
structure IterationBoundTight (numClustersPerRowGroup : Nat) (s : IterationMembers) : Prop where
  least : IsLeast {m | 1 ≤ m ∧ numClustersPerRowGroup ≤ s.cursor m} s.maxNumProbeIterations
  complete : numClustersPerRowGroup ≤ s.cursor s.maxNumProbeIterations
  useful : ∀ m, 1 < m → m ≤ s.maxNumProbeIterations → s.cursor (m - 1) < numClustersPerRowGroup

/-- The bound is tight if it is one more than the rounded up number of follow-up iterations. -/
theorem iterationBoundTight_iff_eq (C : Nat) (s : IterationMembers) :
    IterationBoundTight C s ↔ s.maxNumProbeIterations =
      1 + (C - s.partitionsToProbePerRowGroupOnFirstIteration + 4) / 5 := by
  have hcursor : ∀ m, s.cursor m = s.partitionsToProbePerRowGroupOnFirstIteration + 5 * (m - 1) :=
    fun _ => rfl
  constructor
  · intro h
    obtain ⟨hone, hall⟩ := h.least.1
    have henough : 1 + (C - s.partitionsToProbePerRowGroupOnFirstIteration + 4) / 5 ∈
        {m | 1 ≤ m ∧ C ≤ s.cursor m} := ⟨by omega, by rw [hcursor]; omega⟩
    have hle := h.least.2 henough
    rw [hcursor] at hall
    omega
  · intro h
    refine ⟨⟨⟨by omega, ?_⟩, ?_⟩, ?_, ?_⟩
    · rw [hcursor]
      omega
    · rintro m ⟨hone, hall⟩
      rw [hcursor] at hall
      omega
    · rw [hcursor]
      omega
    · intro m hone hle
      rw [hcursor]
      omega

end IterationMembers

/-! ## The float division -/

/-- The number of clusters up to which `m` follow-up iterations are enough. -/
def iterationBoundary (m : Nat) : Rat := 5 * halfway fltMantDig (m : Rat)

theorem followUpIterations_pos {n : Nat} (hn : 0 < n) : 0 < followUpIterations n := by
  have hcast : (0 : Rat) < n := Nat.cast_pos.mpr hn
  have hpos := roundFloat_pos (show 0 < fltMantDig by decide)
    (div_pos (roundFloat_pos (show 0 < fltMantDig by decide) hcast) (by norm_num : (0 : Rat) < 5))
  unfold followUpIterations
  rw [Int.lt_toNat]
  exact_mod_cast Int.ceil_pos.mpr hpos

theorem iterationBoundary_pos {m : Nat} (hm : 0 < m) : 0 < iterationBoundary m := by
  have hcast : (0 : Rat) < m := Nat.cast_pos.mpr hm
  exact mul_pos (by norm_num) ((zpow_two_pos _).trans (zpow_log_lt_halfway (by decide) hcast))

theorem followUpIterations_le_iff_float {n m : Nat} (hn : 0 < n) (hm : 0 < m) :
    followUpIterations n ≤ m ↔ roundFloat fltMantDig (n : Rat) ≤ iterationBoundary m := by
  have hquotient := roundFloat_div_le_iff (show 0 < fltMantDig by decide)
    (by decide : Odd (5 : Int)) (by decide) 0 (Nat.cast_pos.mpr hn : (0 : Rat) < n)
    (Nat.cast_pos.mpr hm : (0 : Rat) < m)
  rw [zpow_zero, mul_one, Int.cast_ofNat] at hquotient
  unfold followUpIterations
  rw [Int.toNat_le, Int.ceil_le]
  exact hquotient

theorem followUpIterations_le_iff {n m : Nat} (hn : 0 < n) (hm : 0 < m) :
    followUpIterations n ≤ m ↔ ¬ RoundsAbove fltMantDig (iterationBoundary m) (n : Rat) := by
  rw [roundsAbove_iff (by decide) (Nat.cast_pos.mpr hn) (iterationBoundary_pos hm), not_lt]
  exact followUpIterations_le_iff_float hn hm

/-- Numbers that are floats themselves are divided as they should be. -/
theorem followUpIterations_eq {n : Nat} (hn : 0 < n) (hle : n ≤ 2 ^ 24) :
    followUpIterations n = (n + 4) / 5 := by
  have hfloat : roundFloat fltMantDig (n : Rat) = n := by
    rcases hle.lt_or_eq with hlt | rfl
    · have h := roundFloat_natCast_mul_zpow (K := Rat) (p := fltMantDig) hn hlt 0
      rwa [zpow_zero, mul_one] at h
    · have h := roundFloat_natCast_mul_zpow (K := Rat) (p := fltMantDig) (m := 1) (by decide)
        (by decide) 24
      rwa [show ((1 : Nat) : Rat) * 2 ^ (24 : Int) = ((2 ^ 24 : Nat) : Rat) by norm_num] at h
  have hhalfway : ∀ m : Nat, 0 < m → m < 2 ^ 24 →
      halfway fltMantDig (m : Rat) = m + spacing fltMantDig (m : Rat) / 2 := by
    intro m hm hlt
    obtain ⟨z, hz⟩ := exists_natCast_eq_mul_spacing (K := Rat) (p := fltMantDig) hm hlt
    exact halfway_of_eq hz
  refine le_antisymm ?_ ?_
  · rw [followUpIterations_le_iff_float hn (by omega), hfloat, iterationBoundary,
      hhalfway _ (by omega) (by omega)]
    have hpos := spacing_pos fltMantDig (((n + 4) / 5 : Nat) : Rat)
    have hcast : (n : Rat) ≤ 5 * (((n + 4) / 5 : Nat) : Rat) := by
      have : n ≤ 5 * ((n + 4) / 5) := by omega
      exact_mod_cast this
    linarith
  · rcases Nat.lt_or_ge n 6 with hsmall | hlarge
    · have hpos := followUpIterations_pos hn
      omega
    · -- one iteration less leaves a cluster over, and the boundary is less than one cluster away
      by_contra hlt
      have hm : 0 < (n + 4) / 5 - 1 := by omega
      have hle' : followUpIterations n ≤ (n + 4) / 5 - 1 := by omega
      rw [followUpIterations_le_iff_float hn hm, hfloat, iterationBoundary,
        hhalfway _ hm (by omega)] at hle'
      have hspacing : spacing fltMantDig (((n + 4) / 5 - 1 : Nat) : Rat) ≤ 2 ^ (-2 : Int) := by
        rw [spacing, Int.log_natCast]
        refine zpow_le_zpow_right₀ one_le_two ?_
        have hlog : Nat.log 2 ((n + 4) / 5 - 1) < 22 := Nat.log_lt_of_lt_pow hm.ne' (by omega)
        rw [show fltMantDig = 24 from rfl]
        omega
      have hcast : (5 : Rat) * (((n + 4) / 5 - 1 : Nat) : Rat) + 1 ≤ n := by
        have : 5 * ((n + 4) / 5 - 1) + 1 ≤ n := by omega
        exact_mod_cast this
      rw [show (2 : Rat) ^ (-2 : Int) = 1 / 4 by norm_num] at hspacing
      linarith

/-! ## When the bound is tight -/

namespace IterationMembers

theorem maxNumProbeIterations_construct {C : Nat} (hC : 1 ≤ C) (nProbe : Nat) :
    (construct C nProbe).maxNumProbeIterations = 1 + followUpIterations C := by
  change (if C ≤ 0 then 1 else 1 + followUpIterations (C - 0)) = _
  rw [if_neg (by omega), Nat.sub_zero]

/-- The constructor's bound belongs to a first iteration that probes nothing: it is tight if that
makes no difference to the number of iterations. -/
theorem iterationBoundTight_construct_iff {C : Nat} (hC : 1 ≤ C) (nProbe : Nat) :
    IterationBoundTight C (construct C nProbe) ↔
      (1 ≤ nProbe ∧ nProbe < C) ∧ followUpIterations C = (C - nProbe + 4) / 5 := by
  have hpos := followUpIterations_pos hC
  rw [iterationBoundTight_iff_eq, maxNumProbeIterations_construct hC]
  change 1 + followUpIterations C =
    1 + (C - (if nProbe = 0 ∨ C < nProbe then C else nProbe) + 4) / 5 ↔ _
  split_ifs with hall
  · omega
  · constructor
    · intro h
      exact ⟨by omega, by omega⟩
    · rintro ⟨-, h⟩
      rw [h]

/-- For `480` clusters, all of which the first iteration probes, the bound is 97. -/
theorem not_iterationBoundTight_480 :
    (construct 480 0).partitionsToProbePerRowGroupOnFirstIteration = 480 ∧
      (construct 480 0).maxNumProbeIterations = 97 ∧
      ¬ IterationBoundTight 480 (construct 480 0) := by
  have hmax : (construct 480 0).maxNumProbeIterations = 97 := by
    rw [maxNumProbeIterations_construct (by decide), followUpIterations_eq (by decide) (by decide)]
  refine ⟨rfl, hmax, fun h => ?_⟩
  have hone : 1 ∈ {m | 1 ≤ m ∧ 480 ≤ (construct 480 0).cursor m} := ⟨le_rfl, le_rfl⟩
  have hle := h.least.2 hone
  omega

/-- The bound is tight if and only if the first iteration probes some clusters, but not all, and the
others need as many follow-up iterations as the float quotient of all clusters allows for. Up to
`2 ^ 24` clusters: if and only if the first iteration probes between one and `(C - 1) % 5`
clusters. -/
theorem iterationBoundTight_iff {C : Nat} (hC : 1 ≤ C) (nProbe : Nat) :
    (IterationBoundTight C (construct C nProbe) ↔ (1 ≤ nProbe ∧ nProbe < C) ∧
      ¬ RoundsAbove fltMantDig (iterationBoundary ((C - nProbe + 4) / 5)) (C : Rat) ∧
      ((C - nProbe + 4) / 5 = 1 ∨
        RoundsAbove fltMantDig (iterationBoundary ((C - nProbe + 4) / 5 - 1)) (C : Rat))) ∧
    (C ≤ 2 ^ 24 →
      (IterationBoundTight C (construct C nProbe) ↔ 1 ≤ nProbe ∧ nProbe ≤ (C - 1) % 5)) := by
  rw [iterationBoundTight_construct_iff hC]
  constructor
  · refine and_congr_right fun hprobe => ?_
    have hpos := followUpIterations_pos hC
    rw [← followUpIterations_le_iff hC (by omega)]
    by_cases hone : (C - nProbe + 4) / 5 = 1
    · rw [hone]
      omega
    · have habove : RoundsAbove fltMantDig (iterationBoundary ((C - nProbe + 4) / 5 - 1)) (C : Rat) ↔
          (C - nProbe + 4) / 5 - 1 < followUpIterations C := by
        rw [← not_le, followUpIterations_le_iff hC (by omega), not_not]
      rw [or_iff_right hone, habove]
      omega
  · intro hle
    rw [followUpIterations_eq hC hle]
    omega

/-- Eight clusters, two of which are probed first. -/
theorem iterationBoundTight_eight_two : IterationBoundTight 8 (construct 8 2) :=
  ((iterationBoundTight_iff (by decide) 2).2 (by decide)).mpr (by decide)

end IterationMembers

/-! ## The bound of the scan -/

/-- The members of the scan are those of its constructor as long as the number of clusters is a
float. -/
theorem FilteredScan.members_eq {K E D : Type} (scan : FilteredScan K E D)
    (hle : scan.index.numClustersPerRowGroup ≤ 2 ^ 24) :
    let s := IterationMembers.construct scan.index.numClustersPerRowGroup scan.nProbe
    s.partitionsToProbePerRowGroupOnFirstIteration =
        scan.partitionsToProbePerRowGroupOnFirstIteration ∧
      s.maxNumProbeIterations = scan.maxNumProbeIterations := by
  refine ⟨rfl, ?_⟩
  rcases Nat.eq_zero_or_pos scan.index.numClustersPerRowGroup with hzero | hpos
  · rw [FilteredScan.maxNumProbeIterations, hzero]
    rfl
  · rw [IterationMembers.maxNumProbeIterations_construct hpos, followUpIterations_eq hpos hle,
      FilteredScan.maxNumProbeIterations, getMaximumNumberOfProbeIterations, if_neg (by omega),
      Nat.sub_zero]
    have hceil : ⌈(scan.index.numClustersPerRowGroup : Rat) /
        partitionsToProbePerRowGroupPerFollowUpIteration⌉ =
        (((scan.index.numClustersPerRowGroup + 4) / 5 : Nat) : Int) := by
      rw [Int.ceil_eq_iff, partitionsToProbePerRowGroupPerFollowUpIteration]
      have hlo : 5 * ((scan.index.numClustersPerRowGroup + 4) / 5) <
          scan.index.numClustersPerRowGroup + 5 := by omega
      have hhi : scan.index.numClustersPerRowGroup ≤
          5 * ((scan.index.numClustersPerRowGroup + 4) / 5) := by
        omega
      generalize (scan.index.numClustersPerRowGroup + 4) / 5 = m at hlo hhi ⊢
      have hlo' : (5 : Rat) * m < scan.index.numClustersPerRowGroup + 5 := by exact_mod_cast hlo
      have hhi' : (scan.index.numClustersPerRowGroup : Rat) ≤ 5 * m := by exact_mod_cast hhi
      push_cast
      constructor
      · rw [lt_div_iff₀ (by norm_num)]
        linarith
      · rw [div_le_iff₀ (by norm_num)]
        linarith
    rw [hceil, Int.toNat_natCast]

end PDXearch
