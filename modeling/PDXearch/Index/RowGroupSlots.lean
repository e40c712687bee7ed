import PDXearch.Index.Wrapper
import Mathlib.Tactic.NormNum

/-!
# A slot for every row group

`PDXearchWrapperParallel` computes its number of row groups in single precision, `GetRowGroupId` the
row group of a row in 64-bit integers. The number of rows is rounded before it is divided, and the
quotient is rounded again. Where this carries the number of rows down to the end of the row group
before the last, the last row group has no slot.
-/

namespace PDXearch

open Lib

/-- In a table of `n` rows every row has a slot in `row_groups`, and every slot has a row. -/
structure PDXearchWrapperParallel.SlotForEveryRowGroup {K E D : Type}
    (w : PDXearchWrapperParallel K E D) (n : Nat) : Prop where
  numRowGroups_eq : (w.numRowGroups : Int) = ⌈(n : Rat) / defaultRowGroupSize⌉
  getRowGroupId_lt : ∀ r < n, getRowGroupId r < w.numRowGroups
  exists_row : ∀ g < w.numRowGroups, ∃ r < n, getRowGroupId r = g

/-- The rows in the last row group of a table of `n` rows. -/
def rowsInLastRowGroup (n : Nat) : Nat := (n - 1) % defaultRowGroupSize + 1

theorem rows_eq {n : Nat} (hn : 0 < n) :
    n = defaultRowGroupSize * getRowGroupId (n - 1) + rowsInLastRowGroup n := by
  have hdiv := Nat.div_add_mod (n - 1) defaultRowGroupSize
  unfold rowsInLastRowGroup getRowGroupId
  omega

theorem rowsInLastRowGroup_le (n : Nat) : rowsInLastRowGroup n ≤ defaultRowGroupSize :=
  Nat.mod_lt _ (by decide)

/-- No row group before the last is left out. -/
theorem exists_row_of_le {n g : Nat} (hn : 0 < n) (hg : g ≤ getRowGroupId (n - 1)) :
    ∃ r < n, getRowGroupId r = g := by
  refine ⟨defaultRowGroupSize * g, ?_, Nat.mul_div_cancel_left _ (by decide)⟩
  have hle : defaultRowGroupSize * g ≤ defaultRowGroupSize * getRowGroupId (n - 1) :=
    Nat.mul_le_mul_left _ hg
  have hrows := rows_eq hn
  have hpos : 0 < rowsInLastRowGroup n := Nat.succ_pos _
  omega

section Rat

theorem size_pos : (0 : Rat) < (defaultRowGroupSize : Nat) := by
  unfold defaultRowGroupSize
  norm_num

theorem lt_div_size {n : Nat} (hn : 0 < n) :
    (getRowGroupId (n - 1) : Rat) < n / defaultRowGroupSize := by
  rw [lt_div_iff₀ size_pos]
  have hrows := rows_eq hn
  have hpos : 0 < rowsInLastRowGroup n := Nat.succ_pos _
  exact_mod_cast (show getRowGroupId (n - 1) * defaultRowGroupSize < n by
    rw [Nat.mul_comm]
    omega)

theorem div_size_le (n : Nat) : (n : Rat) / defaultRowGroupSize ≤ getRowGroupId (n - 1) + 1 := by
  rw [div_le_iff₀ size_pos]
  have hdiv := Nat.div_add_mod (n - 1) defaultRowGroupSize
  have hmod := Nat.mod_lt (n - 1) (show 0 < defaultRowGroupSize by decide)
  exact_mod_cast (show n ≤ (getRowGroupId (n - 1) + 1) * defaultRowGroupSize by
    unfold getRowGroupId
    rw [Nat.add_mul, Nat.mul_comm]
    omega)

theorem ceil_div_size {n : Nat} (hn : 0 < n) :
    ⌈(n : Rat) / defaultRowGroupSize⌉ = (getRowGroupId (n - 1) : Int) + 1 := by
  rw [Int.ceil_eq_iff]
  push_cast
  rw [add_sub_cancel_right]
  exact ⟨lt_div_size hn, div_size_le n⟩

end Rat

namespace PDXearchWrapperParallel

variable {K E D : Type} {w : PDXearchWrapperParallel K E D}

/-- The three parts say the same. -/
theorem slotForEveryRowGroup_iff_numRowGroups {n : Nat} (hn : 0 < n) :
    w.SlotForEveryRowGroup n ↔ w.numRowGroups = getRowGroupId (n - 1) + 1 := by
  constructor
  · intro h
    have heq := h.numRowGroups_eq
    rw [ceil_div_size hn] at heq
    exact_mod_cast heq
  · intro h
    refine ⟨?_, ?_, ?_⟩
    · rw [ceil_div_size hn, h]
      push_cast
      rfl
    · intro r hr
      rw [h]
      exact Nat.lt_succ_of_le (Nat.div_le_div_right (by omega))
    · intro g hg
      exact exists_row_of_le hn (by omega)

/-! ## The two roundings -/

/-- `(float)estimated_cardinality` -/
def floatRows (n : Nat) : Rat := roundFloat fltMantDig (n : Rat)

theorem floatRows_pos {n : Nat} (hn : 0 < n) : 0 < floatRows n :=
  roundFloat_pos (by decide) (Nat.cast_pos.mpr hn)

theorem size_eq_odd_mul_zpow : ((defaultRowGroupSize : Nat) : Rat) = (15 : Int) * 2 ^ (13 : Int) := by
  unfold defaultRowGroupSize
  norm_num

/-- The point up to which the first `m` row groups are enough. -/
def slotBoundary (m : Nat) : Rat := defaultRowGroupSize * halfway fltMantDig (m : Rat)

theorem slotBoundary_pos {m : Nat} (hm : 0 < m) : 0 < slotBoundary m := by
  have hcast : (0 : Rat) < m := Nat.cast_pos.mpr hm
  exact mul_pos size_pos ((zpow_two_pos _).trans (zpow_log_lt_halfway (by decide) hcast))

theorem estimatedNumRowGroups_le_iff {n m : Nat} (hn : 0 < n) (hm : 0 < m) :
    estimatedNumRowGroups n ≤ m ↔ floatRows n ≤ slotBoundary m := by
  have hquotient := roundFloat_div_le_iff (show 0 < fltMantDig by decide)
    (by decide : Odd (15 : Int)) (by decide) 13 (Nat.cast_pos.mpr hn : (0 : Rat) < n)
    (Nat.cast_pos.mpr hm : (0 : Rat) < m)
  rw [← size_eq_odd_mul_zpow] at hquotient
  unfold estimatedNumRowGroups
  rw [Int.toNat_le, Int.ceil_le]
  exact hquotient

theorem lt_estimatedNumRowGroups_iff {n m : Nat} (hn : 0 < n) :
    m < estimatedNumRowGroups n ↔ m = 0 ∨ RoundsAbove fltMantDig (slotBoundary m) (n : Rat) := by
  rcases Nat.eq_zero_or_pos m with rfl | hm
  · refine iff_of_true ?_ (Or.inl rfl)
    have hpos := roundFloat_pos (show 0 < fltMantDig by decide) (div_pos (floatRows_pos hn) size_pos)
    unfold estimatedNumRowGroups
    rw [Int.lt_toNat]
    exact_mod_cast Int.ceil_pos.mpr hpos
  · have hcast : (0 : Rat) < n := Nat.cast_pos.mpr hn
    rw [or_iff_right hm.ne', roundsAbove_iff (by decide) hcast (slotBoundary_pos hm), ← not_le,
      estimatedNumRowGroups_le_iff hn hm, not_le]
    rfl

/-! ## Fewer than `2 ^ 36` rows -/

section Small

variable {n : Nat}

/-- The size of a row group is an even multiple of the spacing of floats at `n`. -/
theorem size_eq_mul_spacing (hlt : n < 2 ^ 36) : ∃ q : Int, (defaultRowGroupSize : Rat) =
    ((2 * q : Int) : Rat) * spacing fltMantDig (n : Rat) := by
  have hlog : Nat.log 2 n ≤ 35 := Nat.lt_succ_iff.mp (Nat.log_lt_of_lt_pow' (by decide) hlt)
  refine ⟨15 * 2 ^ (35 - Nat.log 2 n), ?_⟩
  rw [spacing, Int.log_natCast]
  have hexp : ((35 - Nat.log 2 n : Nat) : Int) +
      ((Nat.log 2 n : Int) + 1 - (fltMantDig : Nat)) = 12 := by
    unfold fltMantDig
    omega
  push_cast
  rw [mul_assoc, mul_assoc, ← zpow_natCast, ← zpow_add₀ two_ne_zero, hexp]
  unfold defaultRowGroupSize
  norm_num

/-- What is rounded down to the end of a row group: ties go there, as its significand is even. -/
theorem floatRows_le_mul_iff (hlt : n < 2 ^ 36) (m : Nat) :
    floatRows n ≤ defaultRowGroupSize * m ↔
      (n : Rat) ≤ defaultRowGroupSize * m + spacing fltMantDig (n : Rat) / 2 := by
  obtain ⟨q, hq⟩ := size_eq_mul_spacing hlt
  have hpos := spacing_pos fltMantDig (n : Rat)
  have hmul : (defaultRowGroupSize : Rat) * m =
      ((2 * q * m : Int) : Rat) * spacing fltMantDig (n : Rat) := by
    rw [hq]
    push_cast
    ring
  have heven : Even (2 * q * m) := by
    rw [mul_assoc]
    exact even_two_mul _
  unfold floatRows roundFloat
  rw [hmul, mul_le_mul_iff_left₀ hpos, Int.cast_le, roundHalfEven_le_iff, and_iff_left heven,
    ← le_iff_lt_or_eq, div_le_iff₀ hpos, add_mul, one_div_mul_eq_div]

theorem halfway_natCast {m : Nat} (hm : 0 < m) (hbits : m < 2 ^ fltMantDig) :
    halfway fltMantDig (m : Rat) = m + spacing fltMantDig (m : Rat) / 2 := by
  obtain ⟨z, hz⟩ := exists_natCast_eq_mul_spacing (K := Rat) hm hbits
  exact halfway_of_eq hz

theorem le_slotBoundary {m : Nat} (hm : 0 < m) (hbits : m < 2 ^ fltMantDig) :
    (defaultRowGroupSize : Rat) * m ≤ slotBoundary m := by
  rw [slotBoundary, halfway_natCast hm hbits, mul_add]
  exact le_add_of_nonneg_right (mul_pos size_pos (half_pos (spacing_pos _ _))).le

/-- The boundary lies less than one spacing above the end of the row groups. -/
theorem slotBoundary_lt {m : Nat} (hm : 0 < m) (hlt : n < 2 ^ 36)
    (hrows : defaultRowGroupSize * m < n) :
    slotBoundary m < defaultRowGroupSize * m + spacing fltMantDig (n : Rat) := by
  have hbits : m < 2 ^ fltMantDig := by
    unfold fltMantDig
    unfold defaultRowGroupSize at hrows
    omega
  have hcast : (0 : Rat) < m := Nat.cast_pos.mpr hm
  rw [slotBoundary, halfway_natCast hm hbits, mul_add]
  refine add_lt_add_right (lt_of_mul_lt_mul_left ?_ (zpow_two_pos (K := Rat) (fltMantDig : Nat)).le) _
  calc 2 ^ ((fltMantDig : Nat) : Int) * (defaultRowGroupSize * (spacing fltMantDig (m : Rat) / 2))
      = defaultRowGroupSize * (2 ^ fltMantDig * spacing fltMantDig (m : Rat) / 2) := by
        rw [zpow_natCast]
        ring
    _ = defaultRowGroupSize * 2 ^ Int.log 2 (m : Rat) := by
        rw [pow_mul_spacing, zpow_add_one₀ two_ne_zero, mul_div_assoc, div_self two_ne_zero, mul_one]
    _ ≤ defaultRowGroupSize * m :=
        mul_le_mul_of_nonneg_left (Int.zpow_log_le_self one_lt_two hcast) size_pos.le
    _ < n := by exact_mod_cast hrows
    _ < 2 ^ (Int.log 2 (n : Rat) + 1) := Int.lt_zpow_succ_log_self one_lt_two _
    _ = 2 ^ ((fltMantDig : Nat) : Int) * spacing fltMantDig (n : Rat) := by
        rw [zpow_natCast, pow_mul_spacing]

/-- Between the end of the row groups and their boundary there is no float. -/
theorem floatRows_le_slotBoundary_iff {m : Nat} (hm : 0 < m) (hlt : n < 2 ^ 36)
    (hrows : defaultRowGroupSize * m < n) :
    floatRows n ≤ slotBoundary m ↔ floatRows n ≤ defaultRowGroupSize * m := by
  constructor
  · intro h
    obtain ⟨q, hq⟩ := size_eq_mul_spacing hlt
    have hpos := spacing_pos fltMantDig (n : Rat)
    have hmul : (defaultRowGroupSize : Rat) * m =
        ((2 * q * m : Int) : Rat) * spacing fltMantDig (n : Rat) := by
      rw [hq]
      push_cast
      ring
    have hbelow := h.trans_lt (slotBoundary_lt hm hlt hrows)
    rw [hmul, ← add_one_mul, floatRows, roundFloat, mul_lt_mul_iff_left₀ hpos] at hbelow
    rw [hmul, floatRows, roundFloat, mul_le_mul_iff_left₀ hpos, Int.cast_le]
    exact Int.lt_add_one_iff.mp (by exact_mod_cast hbelow)
  · intro h
    refine h.trans (le_slotBoundary hm ?_)
    unfold fltMantDig
    unfold defaultRowGroupSize at hrows
    omega

/-- No row group too many. -/
theorem estimatedNumRowGroups_le (hn : 0 < n) (hlt : n < 2 ^ 36) :
    estimatedNumRowGroups n ≤ getRowGroupId (n - 1) + 1 := by
  have hbits : getRowGroupId (n - 1) + 1 < 2 ^ fltMantDig := by
    unfold fltMantDig getRowGroupId defaultRowGroupSize
    omega
  have hend := div_size_le n
  rw [div_le_iff₀ size_pos] at hend
  rw [estimatedNumRowGroups_le_iff hn (Nat.succ_pos _)]
  refine ((floatRows_le_mul_iff hlt _).mpr ?_).trans (le_slotBoundary (Nat.succ_pos _) hbits)
  have hpos := spacing_pos fltMantDig (n : Rat)
  push_cast
  linarith

/-- The last row group has a slot if its rows are more than half a spacing of floats. -/
theorem getRowGroupId_lt_estimatedNumRowGroups_iff (hn : 0 < n) (hlt : n < 2 ^ 36) :
    getRowGroupId (n - 1) < estimatedNumRowGroups n ↔
      2 ^ Nat.log 2 n < 2 ^ fltMantDig * rowsInLastRowGroup n := by
  have hrows := rows_eq hn
  have hlog := Nat.pow_log_le_self 2 hn.ne'
  rcases Nat.eq_zero_or_pos (getRowGroupId (n - 1)) with hzero | hpos
  · rw [hzero, Nat.mul_zero, Nat.zero_add] at hrows
    refine iff_of_true ((lt_estimatedNumRowGroups_iff hn).mpr (Or.inl hzero)) ?_
    unfold fltMantDig
    omega
  · have hlast : 0 < rowsInLastRowGroup n := Nat.succ_pos _
    have hspacing : spacing fltMantDig (n : Rat) / 2 * 2 ^ fltMantDig = (2 ^ Nat.log 2 n : Nat) := by
      rw [div_mul_eq_mul_div, mul_comm, pow_mul_spacing, Int.log_natCast, zpow_add_one₀ two_ne_zero,
        mul_div_assoc, div_self two_ne_zero, mul_one, zpow_natCast]
      push_cast
      rfl
    have hcast : (n : Rat) = defaultRowGroupSize * getRowGroupId (n - 1) + rowsInLastRowGroup n := by
      exact_mod_cast hrows
    rw [← not_le, estimatedNumRowGroups_le_iff hn hpos,
      floatRows_le_slotBoundary_iff hpos hlt (by omega), floatRows_le_mul_iff hlt, not_le]
    have hlast : defaultRowGroupSize * getRowGroupId (n - 1) + spacing fltMantDig (n : Rat) / 2 <
        (n : Rat) ↔ spacing fltMantDig (n : Rat) / 2 < rowsInLastRowGroup n := by
      constructor
      · intro h
        linarith
      · intro h
        linarith
    rw [hlast, ← mul_lt_mul_iff_left₀ (pow_pos two_pos fltMantDig), hspacing,
      Nat.mul_comm (2 ^ fltMantDig)]
    exact_mod_cast Iff.rfl

end Small

/-- The constructor's slots are right if and only if the roundings carry the number of rows neither down
to the row groups before the last nor beyond the last. For fewer than `2 ^ 36` rows: if and only if the
rows in the last row group are more than half the spacing of floats at `n`. -/
theorem new_slotForEveryRowGroup_iff {n : Nat} {base : PDXearchWrapper K} (h : new base n = some w) :
    (w.SlotForEveryRowGroup n ↔
      (getRowGroupId (n - 1) = 0 ∨
        RoundsAbove fltMantDig (slotBoundary (getRowGroupId (n - 1))) (n : Rat)) ∧
      ¬ RoundsAbove fltMantDig (slotBoundary (getRowGroupId (n - 1) + 1)) (n : Rat)) ∧
    (n < 2 ^ 36 →
      (w.SlotForEveryRowGroup n ↔ 2 ^ Nat.log 2 n < 2 ^ fltMantDig * rowsInLastRowGroup n)) := by
  obtain ⟨hn, -, hnum, -⟩ := new_spec h
  have hslots : w.SlotForEveryRowGroup n ↔ getRowGroupId (n - 1) < estimatedNumRowGroups n ∧
      ¬ getRowGroupId (n - 1) + 1 < estimatedNumRowGroups n := by
    rw [slotForEveryRowGroup_iff_numRowGroups hn, hnum]
    omega
  rw [hslots]
  constructor
  · rw [lt_estimatedNumRowGroups_iff hn, lt_estimatedNumRowGroups_iff hn,
      or_iff_right (Nat.succ_ne_zero _)]
  · intro hlt
    rw [← getRowGroupId_lt_estimatedNumRowGroups_iff hn hlt]
    exact and_iff_left (not_lt.mpr (estimatedNumRowGroups_le hn hlt))

/-- The wrapper of a table with `n` rows, one dimension. -/
def wrapperFor (n : Nat) : Option (PDXearchWrapperParallel Rat Rat (ExactFloat Rat)) :=
  new ⟨1, false, 0, fun _ => 1⟩ n

/-- A table with two rows in its second row group. -/
theorem new_slotForEveryRowGroup_iff_two :
    ∃ w, wrapperFor 122882 = some w ∧ w.SlotForEveryRowGroup 122882 :=
  ⟨_, rfl, ((new_slotForEveryRowGroup_iff (n := 122882) rfl).2 (by decide)).mpr (by decide +kernel)⟩

/-- The row after 137 full row groups is in row group 137, but only 137 row groups are allocated. -/
theorem no_slot_for_row_16834560 :
    getRowGroupId 16834560 = 137 ∧
      ∃ w, wrapperFor 16834561 = some w ∧ w.numRowGroups = 137 ∧
        ¬ w.SlotForEveryRowGroup 16834561 := by
  have hestimate : estimatedNumRowGroups 16834561 = 137 := by decide +kernel
  refine ⟨rfl, _, rfl, hestimate, ?_⟩
  intro h
  have hlt := h.getRowGroupId_lt 16834560 (by decide)
  rw [hestimate] at hlt
  exact absurd hlt (by decide)

end PDXearchWrapperParallel

end PDXearch
