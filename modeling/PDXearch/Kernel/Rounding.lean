import PDXearch.Kernel.Quantization
import PDXearch.Lib.FloatRounding
import Mathlib.Data.Rat.Floor
import Mathlib.Data.Rat.Cast.Order
import Mathlib.Tactic.Linarith
import Mathlib.Tactic.Ring

/-!
# Rounding to the nearest integer

What `std::round` computes: the nearest integer, halves away from zero. It is odd, so the lemmas
about bounds below zero are those about bounds above zero, reflected. The conversion of a rounded
float to a 32-bit integer is defined for the integers that fit; `isSome_toInt32_round_iff` says what
these are before the float was rounded.
-/

namespace PDXearch

open Lib

variable {K : Type} [Field K] [LinearOrder K] [IsStrictOrderedRing K] [FloorRing K]

theorem round_zero : round (0 : K) = 0 := by
  rw [round, if_pos le_rfl, Int.floor_eq_iff]
  norm_num

theorem round_neg (x : K) : round (-x) = -round x := by
  rcases lt_trichotomy x 0 with hx | rfl | hx
  · rw [round, round, if_pos (by linarith), if_neg (by linarith), ← Int.floor_neg, neg_sub,
      sub_eq_neg_add, add_comm]
  · rw [neg_zero, round_zero, neg_zero]
  · rw [round, round, if_neg (by linarith), if_pos hx.le, ← Int.ceil_neg, neg_add']

/-- Exceeding a bound that is not negative. -/
theorem lt_round_iff {n : Int} (hn : 0 ≤ n) (x : K) : n < round x ↔ (n : K) + 1 / 2 ≤ x := by
  have hcast : ((1 / 2 : Rat) : K) = 1 / 2 := by norm_num
  have hn' : (0 : K) ≤ n := Int.cast_nonneg hn
  rw [round, hcast]
  split_ifs with hx
  · rw [← Int.add_one_le_iff, Int.le_floor]
    push_cast
    constructor
    · intro h
      linarith
    · intro h
      linarith
  · constructor
    · intro h
      have hceil : ⌈x - 1 / 2⌉ ≤ 0 := Int.ceil_le.mpr (by push_cast; linarith)
      omega
    · intro h
      linarith

theorem round_le_iff {n : Int} (hn : 0 ≤ n) (x : K) : round x ≤ n ↔ x < (n : K) + 1 / 2 := by
  rw [← not_lt, lt_round_iff hn, not_le]

/-- Falling below a bound that is not positive. -/
theorem round_lt_iff {n : Int} (hn : n ≤ 0) (x : K) : round x < n ↔ x ≤ (n : K) - 1 / 2 := by
  have h := lt_round_iff (Int.neg_nonneg.mpr hn) (-x)
  rw [round_neg, neg_lt_neg_iff] at h
  rw [h]
  push_cast
  constructor
  · intro h
    linarith
  · intro h
    linarith

theorem le_round_iff {n : Int} (hn : n ≤ 0) (x : K) : n ≤ round x ↔ (n : K) - 1 / 2 < x := by
  rw [← not_lt, round_lt_iff hn, not_le]

theorem round_nonneg {x : K} (hx : -(1 / 2) < x) : 0 ≤ round x := by
  rw [le_round_iff le_rfl]
  push_cast
  linarith

theorem abs_round_sub_le (x : K) : |(round x : K) - x| ≤ 1 / 2 := by
  have hcast : ((1 / 2 : Rat) : K) = 1 / 2 := by norm_num
  rw [round, hcast, abs_le]
  split_ifs with hx
  · have hle := Int.floor_le (x + 1 / 2)
    have hlt := Int.lt_floor_add_one (x + 1 / 2)
    constructor
    · linarith
    · linarith
  · have hle := Int.le_ceil (x - 1 / 2)
    have hlt := Int.ceil_lt_add_one (x - 1 / 2)
    constructor
    · linarith
    · linarith

theorem round_mono {x y : K} (hxy : x ≤ y) : round x ≤ round y := by
  rcases le_or_gt 0 (round y) with hy | hy
  · rw [round_le_iff hy]
    exact hxy.trans_lt ((round_le_iff hy y).mp le_rfl)
  · -- below zero the bound is the reflected one
    have hneg : 0 ≤ round (-x) ∨ round (-x) < 0 := le_or_gt _ _
    rcases hneg with hx | hx
    · have h := (round_le_iff hx (-y)).mpr
        ((neg_le_neg hxy).trans_lt ((round_le_iff hx (-x)).mp le_rfl))
      rw [round_neg, round_neg] at h
      omega
    · exfalso
      rw [round_neg] at hx
      have hxpos := (lt_round_iff le_rfl x).mp (by omega)
      have hyneg := (round_lt_iff le_rfl y).mp hy
      push_cast at hxpos hyneg
      linarith

theorem round_intCast (n : Int) : round (n : K) = n := by
  have h := abs_round_sub_le (n : K)
  rw [← Int.cast_sub, ← Int.cast_abs] at h
  have hlt : ((|round (n : K) - n| : Int) : K) < ((1 : Int) : K) := by
    push_cast at h ⊢
    linarith
  rw [Int.cast_lt, Int.abs_lt_one_iff] at hlt
  omega

theorem toInt32_eq_some_iff {z q : Int} :
    toInt32 z = some q ↔ z = q ∧ -2 ^ 31 ≤ z ∧ z < 2 ^ 31 := by
  rw [toInt32, Option.ite_none_right_eq_some, Option.some.injEq, and_comm]

theorem toInt32_of_mem {z : Int} (hlo : -2 ^ 31 ≤ z) (hhi : z < 2 ^ 31) : toInt32 z = some z :=
  if_pos ⟨hlo, hhi⟩

theorem isSome_toInt32_iff (z : Int) : (toInt32 z).isSome ↔ -2 ^ 31 ≤ z ∧ z < 2 ^ 31 := by
  rw [Option.isSome_iff_exists]
  constructor
  · rintro ⟨q, hq⟩
    exact (toInt32_eq_some_iff.mp hq).2
  · intro h
    exact ⟨z, toInt32_of_mem h.1 h.2⟩

/-- The result of an operation on `float`s. The range of the exponent is not limited: what would be
rounded to zero or to a subnormal number stays close to zero. -/
def roundToFloat (x : Rat) : Rat := roundSigned fltMantDig x

theorem roundToFloat_mono : Monotone roundToFloat := roundSigned_mono (by decide)

theorem roundToFloat_neg (x : Rat) : roundToFloat (-x) = -roundToFloat x := roundSigned_neg _ x

theorem roundToFloat_nonneg {x : Rat} (hx : 0 ≤ x) : 0 ≤ roundToFloat x :=
  roundSigned_nonneg (by decide) hx

theorem roundToFloat_nonpos {x : Rat} (hx : x ≤ 0) : roundToFloat x ≤ 0 :=
  roundSigned_nonpos (by decide) hx

/-- The greatest float below `2 ^ 31` is `2 ^ 31 - 128`. -/
theorem roundToFloat_lt_iff (x : Rat) : roundToFloat x < 2 ^ 31 - 1 / 2 ↔ x < 2 ^ 31 - 64 := by
  have hbound : ∀ y : Rat, 2 ^ 31 - 128 ≤ y → y < 2 ^ 31 →
      (roundToFloat x ≤ y ↔ x < 2 ^ 31 - 64) := by
    intro y hlo hhi
    have h := roundSigned_le_iff_of_mem (p := fltMantDig) (c := 2 ^ 24 - 1) (e := 7) (x := x) (y := y)
      (by decide) (by decide) (by norm_num; linarith) (by norm_num; linarith)
    have hmiddle : (((2 ^ 24 - 1 : Nat) : Rat) + 1 / 2) * 2 ^ (7 : Int) = 2 ^ 31 - 64 := by norm_num
    rw [roundToFloat, h, hmiddle]
    exact or_iff_left fun heven => absurd heven.2 (by decide)
  constructor
  · intro h
    exact (hbound (2 ^ 31 - 1 / 2) (by norm_num) (by norm_num)).mp h.le
  · intro h
    exact ((hbound (2 ^ 31 - 1) (by norm_num) (by norm_num)).mpr h).trans_lt (by norm_num)

/-- The least float above `2 ^ 31` is `2 ^ 31 + 256`. -/
theorem lt_roundToFloat_iff (x : Rat) : -2 ^ 31 - 1 / 2 < roundToFloat x ↔ -(2 ^ 31 + 128) ≤ x := by
  have hbound : ∀ y : Rat, 2 ^ 31 ≤ y → y < 2 ^ 31 + 256 →
      (roundToFloat (-x) ≤ y ↔ -(2 ^ 31 + 128) ≤ x) := by
    intro y hlo hhi
    have h := roundSigned_le_iff_of_mem (p := fltMantDig) (c := 2 ^ 23) (e := 8) (x := -x) (y := y)
      (by decide) (by decide) (by norm_num; linarith) (by norm_num; linarith)
    have hmiddle : (((2 ^ 23 : Nat) : Rat) + 1 / 2) * 2 ^ (8 : Int) = 2 ^ 31 + 128 := by norm_num
    rw [roundToFloat, h, hmiddle, and_iff_left (by decide), ← le_iff_lt_or_eq, neg_le]
  rw [roundToFloat_neg] at hbound
  constructor
  · intro h
    exact (hbound (2 ^ 31 + 1 / 2) (by norm_num) (by norm_num)).mp (by linarith)
  · intro h
    have hle := (hbound (2 ^ 31) le_rfl (by norm_num)).mpr h
    linarith

/-- What can be converted after rounding to a float and to an integer. -/
theorem isSome_toInt32_round_iff (x : Rat) :
    (toInt32 (round (roundToFloat x))).isSome ↔ -(2 ^ 31 + 128) ≤ x ∧ x < 2 ^ 31 - 64 := by
  rw [isSome_toInt32_iff, ← Int.le_sub_one_iff, le_round_iff (by decide), round_le_iff (by decide),
    ← lt_roundToFloat_iff, ← roundToFloat_lt_iff]
  norm_num

end PDXearch
