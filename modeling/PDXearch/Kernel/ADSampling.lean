import PDXearch.Common
import Mathlib.Algebra.BigOperators.Group.Finset.Defs
import Mathlib.Data.Rat.Cast.Order
import Mathlib.Tactic.FieldSimp
import Mathlib.Tactic.Positivity

/-!
# The ADSampling pruner

A vector is dropped when the distance accumulated over the dimensions seen so far reaches a
fraction of the distance on top of the heap. The fraction depends on how many dimensions were
seen; `GetRatio` computes it with a square root, which is a parameter here.
-/

namespace PDXearch

open Lib ExactFloat

variable {K : Type} [Field K] [LinearOrder K]

/-- `ADSamplingPruner`: the rotation matrix is row-major, `ratios` has an entry for every number
of visited dimensions below `numDimensions`. -/
structure ADSamplingPruner (K : Type) where
  numDimensions : Nat
  pruningAggressiveness : K
  matrix : Nat → K
  ratios : Nat → K

namespace ADSamplingPruner

/-- `ADSAMPLING_PRUNING_AGGRESIVENESS` -/
def defaultPruningAggressiveness : K := (3 / 2 : Rat)

def getRatio (sqrt : K → K) (numDimensions : Nat) (pruningAggressiveness : K)
    (visitedDimensions : Nat) : K :=
  if visitedDimensions = 0 then 1
  else if visitedDimensions = numDimensions then 1
  else visitedDimensions / numDimensions *
    (1 + pruningAggressiveness / sqrt visitedDimensions) *
    (1 + pruningAggressiveness / sqrt visitedDimensions)

/-- The constructor. -/
def new (sqrt : K → K) (numDimensions : Nat) (matrix : Nat → K) : ADSamplingPruner K where
  numDimensions := numDimensions
  pruningAggressiveness := defaultPruningAggressiveness
  matrix := matrix
  ratios := getRatio sqrt numDimensions defaultPruningAggressiveness

def setPruningAggresiveness (sqrt : K → K) (pruningAggressiveness : K)
    (pruner : ADSamplingPruner K) : ADSamplingPruner K :=
  { pruner with
    pruningAggressiveness := pruningAggressiveness
    ratios := getRatio sqrt pruner.numDimensions pruningAggressiveness }

/-- The factor that `GetPruningThreshold` applies after `currentDimensionIdx` dimensions. -/
def ratioAt (pruner : ADSamplingPruner K) (currentDimensionIdx : Nat) : K :=
  if currentDimensionIdx = pruner.numDimensions then 1 else pruner.ratios currentDimensionIdx

/-- `GetPruningThreshold`, given the distance on top of the heap. -/
def getPruningThreshold (pruner : ADSamplingPruner K) (top : ExactFloat K)
    (currentDimensionIdx : Nat) : ExactFloat K :=
  scale top (pruner.ratioAt currentDimensionIdx)

/-- `Rotate` of one embedding; `sgemm_` is called with the row-major matrix transposed. -/
def rotate (pruner : ADSamplingPruner K) (embedding : Nat → K) (row : Nat) : K :=
  ∑ col ∈ Finset.range pruner.numDimensions,
    pruner.matrix (row * pruner.numDimensions + col) * embedding col

def preprocessQuery (pruner : ADSamplingPruner K) (rawQueryEmbedding : Nat → K) : Nat → K :=
  pruner.rotate rawQueryEmbedding

/-- No ratio is below one: no threshold is below the distance on top of the heap. -/
def Lossless (pruner : ADSamplingPruner K) : Prop :=
  ∀ d < pruner.numDimensions, 1 ≤ pruner.ratios d

/-- All ratios are positive. -/
def Positive (pruner : ADSamplingPruner K) : Prop :=
  ∀ d < pruner.numDimensions, 0 < pruner.ratios d

theorem Lossless.one_le_ratioAt {pruner : ADSamplingPruner K} (h : pruner.Lossless) {d : Nat}
    (hd : d ≤ pruner.numDimensions) : 1 ≤ pruner.ratioAt d := by
  rw [ratioAt]
  split_ifs with hlast
  · exact le_rfl
  · exact h d (by omega)

variable [IsStrictOrderedRing K]

theorem Positive.ratioAt_pos {pruner : ADSamplingPruner K} (h : pruner.Positive) {d : Nat}
    (hd : d ≤ pruner.numDimensions) : 0 < pruner.ratioAt d := by
  rw [ratioAt]
  split_ifs with hlast
  · exact one_pos
  · exact h d (by omega)

theorem getRatio_pos {sqrt : K → K} (hsqrt : ∀ x, 0 < x → 0 < sqrt x) {a : K} (ha : 0 ≤ a)
    {n d : Nat} (hd : d < n) : 0 < getRatio sqrt n a d := by
  rw [getRatio]
  split_ifs with hzero hlast
  · exact one_pos
  · exact one_pos
  · have hdpos : (0 : K) < d := by exact_mod_cast Nat.pos_of_ne_zero hzero
    have hnpos : (0 : K) < n := by exact_mod_cast (by omega : 0 < n)
    have hroot := hsqrt d hdpos
    positivity

/-- The pruner that the constructor builds drops nothing at distance zero. -/
theorem new_positive {sqrt : K → K} (hsqrt : ∀ x, 0 < x → 0 < sqrt x) (numDimensions : Nat)
    (matrix : Nat → K) : (new sqrt numDimensions matrix).Positive := by
  intro d hd
  exact getRatio_pos hsqrt (by unfold defaultPruningAggressiveness; positivity) hd

/-- An aggressiveness whose square reaches the number of dimensions makes pruning lossless. -/
theorem setPruningAggresiveness_lossless {sqrt : K → K} (hsqrt : ∀ x, 0 < x → 0 < sqrt x)
    (hsq : ∀ x, 0 < x → sqrt x * sqrt x = x) {a : K} (ha : 0 ≤ a) {pruner : ADSamplingPruner K}
    (haa : (pruner.numDimensions : K) ≤ a * a) :
    (pruner.setPruningAggresiveness sqrt a).Lossless := by
  intro d hd
  change d < pruner.numDimensions at hd
  change 1 ≤ getRatio sqrt pruner.numDimensions a d
  rw [getRatio]
  split_ifs with hzero hlast
  · exact le_rfl
  · exact le_rfl
  · have hdpos : (0 : K) < d := by exact_mod_cast Nat.pos_of_ne_zero hzero
    have hnpos : (0 : K) < pruner.numDimensions := by exact_mod_cast (by omega : 0 < _)
    have hroot := hsqrt d hdpos
    have hdrop : a / sqrt d ≤ 1 + a / sqrt d := le_add_of_nonneg_left zero_le_one
    calc (1 : K) ≤ a * a / pruner.numDimensions := (one_le_div hnpos).mpr haa
      _ = d / pruner.numDimensions * (a / sqrt d) * (a / sqrt d) := by
        rw [mul_assoc, div_mul_div_comm a, hsq d hdpos]
        field_simp
      _ ≤ d / pruner.numDimensions * (1 + a / sqrt d) * (1 + a / sqrt d) := by gcongr

theorem one_le_sqrt {sqrt : K → K} (hsqrt : ∀ x, 0 < x → 0 < sqrt x)
    (hsq : ∀ x, 0 < x → sqrt x * sqrt x = x) {d : Nat} (hd : d ≠ 0) : 1 ≤ sqrt d := by
  have hone : (1 : K) ≤ d := by exact_mod_cast Nat.pos_of_ne_zero hd
  have hpos : (0 : K) < d := one_pos.trans_le hone
  by_contra hlt
  have hless := mul_lt_one_of_nonneg_of_lt_one_left (hsqrt d hpos).le (not_le.mp hlt)
    (not_le.mp hlt).le
  rw [hsq d hpos] at hless
  exact hless.not_ge hone

theorem getRatio_eq {sqrt : K → K} (hsqrt : ∀ x, 0 < x → 0 < sqrt x)
    (hsq : ∀ x, 0 < x → sqrt x * sqrt x = x) (a : K) {n d : Nat} (hd : d < n) (hzero : d ≠ 0) :
    getRatio sqrt n a d = (sqrt d + a) * (sqrt d + a) / n := by
  have hdpos : (0 : K) < d := by exact_mod_cast Nat.pos_of_ne_zero hzero
  have hnpos : (0 : K) < n := by exact_mod_cast (by omega : 0 < n)
  have hroot := (hsqrt d hdpos).ne'
  rw [getRatio, if_neg hzero, if_neg hd.ne]
  nth_rewrite 1 [← hsq d hdpos]
  field_simp

/-- No ratio is below `ratio`. -/
def KeepsRatio (pruner : ADSamplingPruner K) (ratio : K) : Prop :=
  ∀ d < pruner.numDimensions, ratio ≤ pruner.ratios d

omit [IsStrictOrderedRing K] in
theorem KeepsRatio.le_ratioAt {pruner : ADSamplingPruner K} {ratio : K} (h : pruner.KeepsRatio ratio)
    (hone : ratio ≤ 1) {d : Nat} (hd : d ≤ pruner.numDimensions) : ratio ≤ pruner.ratioAt d := by
  rw [ratioAt]
  split_ifs with hlast
  · exact hone
  · exact h d (by omega)

/-- The ratio of the first dimension is the least, if any is below one. -/
theorem keepsRatio_setPruningAggresiveness {sqrt : K → K} (hsqrt : ∀ x, 0 < x → 0 < sqrt x)
    (hsq : ∀ x, 0 < x → sqrt x * sqrt x = x) {a : K} (ha : 0 ≤ a) (pruner : ADSamplingPruner K) :
    (pruner.setPruningAggresiveness sqrt a).KeepsRatio
      (min 1 ((1 + a) * (1 + a) / pruner.numDimensions)) := by
  intro d hd
  change d < pruner.numDimensions at hd
  change _ ≤ getRatio sqrt pruner.numDimensions a d
  by_cases hzero : d = 0
  · subst hzero
    exact min_le_left _ _
  · rw [getRatio_eq hsqrt hsq a hd hzero]
    refine (min_le_right _ _).trans ?_
    have hle : 1 + a ≤ sqrt d + a := add_le_add_left (one_le_sqrt hsqrt hsq hzero) a
    have hsquare := mul_self_le_mul_self (add_nonneg zero_le_one ha) hle
    exact div_le_div_of_nonneg_right hsquare (Nat.cast_nonneg _)

/-- Pruning with an aggressiveness is lossless only for few dimensions. -/
theorem lossless_setPruningAggresiveness_iff {sqrt : K → K} (hsqrt : ∀ x, 0 < x → 0 < sqrt x)
    (hsq : ∀ x, 0 < x → sqrt x * sqrt x = x) {a : K} (ha : 0 ≤ a) {pruner : ADSamplingPruner K} :
    (pruner.setPruningAggresiveness sqrt a).Lossless ↔
      (pruner.numDimensions : K) ≤ (1 + a) * (1 + a) := by
  constructor
  · intro h
    rcases Nat.lt_or_ge 1 pruner.numDimensions with hmany | hone
    · have hnpos : (0 : K) < pruner.numDimensions := by exact_mod_cast (by omega : 0 < _)
      have hroot : sqrt (1 : Nat) = 1 := by
        have hself := hsq 1 one_pos
        refine le_antisymm ?_ (one_le_sqrt hsqrt hsq one_ne_zero)
        rw [Nat.cast_one]
        refine (le_mul_of_one_le_left (hsqrt 1 one_pos).le ?_).trans hself.le
        exact_mod_cast one_le_sqrt hsqrt hsq one_ne_zero
      have hratio : 1 ≤ getRatio sqrt pruner.numDimensions a 1 := h 1 hmany
      rwa [getRatio_eq hsqrt hsq a hmany one_ne_zero, hroot, one_le_div hnpos] at hratio
    · have hcast : (pruner.numDimensions : K) ≤ 1 := by exact_mod_cast hone
      have hage : (1 : K) ≤ 1 + a := le_add_of_nonneg_right ha
      exact hcast.trans (one_le_mul_of_one_le_of_one_le hage hage)
  · intro h d hd
    have hnpos : (0 : K) < pruner.numDimensions := by exact_mod_cast Nat.zero_lt_of_lt hd
    have hkeeps := keepsRatio_setPruningAggresiveness hsqrt hsq ha pruner d hd
    rwa [min_eq_left ((one_le_div hnpos).mpr h)] at hkeeps

/-- `(1 + ADSAMPLING_PRUNING_AGGRESIVENESS) ^ 2` -/
theorem one_add_default_mul_self :
    ((1 : K) + defaultPruningAggressiveness) * (1 + defaultPruningAggressiveness) =
      ((25 / 4 : Rat) : K) := by
  have hrat : ((1 : Rat) + 3 / 2) * (1 + 3 / 2) = 25 / 4 := by decide +kernel
  rw [← hrat, Rat.cast_mul, Rat.cast_add, Rat.cast_one]
  rfl

theorem default_nonneg : (0 : K) ≤ defaultPruningAggressiveness := by
  unfold defaultPruningAggressiveness
  positivity

/-- With the default aggressiveness, for at most six dimensions. -/
theorem lossless_new_iff {sqrt : K → K} (hsqrt : ∀ x, 0 < x → 0 < sqrt x)
    (hsq : ∀ x, 0 < x → sqrt x * sqrt x = x) (numDimensions : Nat) (matrix : Nat → K) :
    (new sqrt numDimensions matrix).Lossless ↔ numDimensions ≤ 6 := by
  have hiff : ((new sqrt numDimensions matrix).setPruningAggresiveness sqrt
      defaultPruningAggressiveness).Lossless ↔ (numDimensions : K) ≤
        (1 + defaultPruningAggressiveness) * (1 + defaultPruningAggressiveness) :=
    lossless_setPruningAggresiveness_iff hsqrt hsq default_nonneg
  refine hiff.trans ?_
  rw [one_add_default_mul_self, ← Rat.cast_natCast, Rat.cast_le, le_div_iff₀ (by norm_num)]
  norm_cast
  omega

/-- What no ratio of the constructor's pruner is below. -/
def leastRatio (K : Type) [Field K] [LinearOrder K] (numDimensions : Nat) : K :=
  min 1 (((25 / 4 : Rat) : K) / numDimensions)

theorem keepsRatio_new {sqrt : K → K} (hsqrt : ∀ x, 0 < x → 0 < sqrt x)
    (hsq : ∀ x, 0 < x → sqrt x * sqrt x = x) (numDimensions : Nat) (matrix : Nat → K) :
    (new sqrt numDimensions matrix).KeepsRatio (leastRatio K numDimensions) := by
  have hkeeps := keepsRatio_setPruningAggresiveness hsqrt hsq default_nonneg
    (new sqrt numDimensions matrix)
  rw [one_add_default_mul_self] at hkeeps
  exact hkeeps

theorem leastRatio_nonneg (numDimensions : Nat) : 0 ≤ leastRatio K numDimensions := by
  have hnum : (0 : K) ≤ ((25 / 4 : Rat) : K) := Rat.cast_nonneg.mpr (by positivity)
  exact le_min zero_le_one (div_nonneg hnum (Nat.cast_nonneg _))

omit [IsStrictOrderedRing K] in
theorem leastRatio_le_one (numDimensions : Nat) : leastRatio K numDimensions ≤ 1 :=
  min_le_left _ _

end ADSamplingPruner

end PDXearch
