import PDXearch.Kernel.Rounding

/-!
# Quantizing any query

`QuantizeEmbedding` in float arithmetic: the difference from the base and its product with the scale
are rounded to floats, the rounded product is converted to `int`, and only then clamped. For the
elements of the collection the product lies between zero and `MAX_VALUE`. A query is not restricted
to the range of the collection, and its product need not have an `int`.
-/

namespace PDXearch

open Lib

/-! ## One coordinate -/

/-- The clamp to a byte. -/
def clampCode (maxValue : UInt8) (rounded : Int) : UInt8 :=
  if (maxValue.toNat : Int) < rounded then maxValue
  else if rounded < 0 then 0
  else UInt8.ofNat rounded.toNat

section Coordinate

variable {K : Type} [Field K] [LinearOrder K] [FloorRing K]

/-- `QuantizeEmbedding`, one dimension; `fl` is the result of a float operation, nothing where it is
an infinity. An infinity times the scale is one again and cannot be converted. -/
def quantizeCoordinate (fl : K → Option K) (maxValue : UInt8)
    (params : ScalarQuantizationParams K) (x : K) : Option UInt8 := do
  let difference ← fl (x - params.quantizationBase)
  let scaled ← fl (difference * params.quantizationScale)
  let rounded ← toInt32 (round scaled)
  some (clampCode maxValue rounded)

def quantizeEmbedding (fl : K → Option K) (maxValue : UInt8)
    (params : ScalarQuantizationParams K) (embedding : Nat → K) (numDimensions : Nat) :
    Option (List UInt8) :=
  (List.range numDimensions).mapM fun i => quantizeCoordinate fl maxValue params (embedding i)

end Coordinate

theorem clampCode_toNat (maxValue : UInt8) (rounded : Int) :
    ((clampCode maxValue rounded).toNat : Int) = max 0 (min rounded maxValue.toNat) := by
  have hmax := maxValue.toNat_lt
  rw [clampCode]
  split_ifs with habove hbelow
  · omega
  · rw [UInt8.toNat_zero]
    omega
  · rw [UInt8.toNat_ofNat']
    omega

theorem clampCode_mono (maxValue : UInt8) {a b : Int} (h : a ≤ b) :
    clampCode maxValue a ≤ clampCode maxValue b := by
  have ha := clampCode_toNat maxValue a
  have hb := clampCode_toNat maxValue b
  rw [UInt8.le_iff_toNat_le]
  omega

theorem clampCode_of_nonpos (maxValue : UInt8) {a : Int} (h : a ≤ 0) : clampCode maxValue a = 0 := by
  have ha := clampCode_toNat maxValue a
  refine UInt8.toNat_inj.mp ?_
  rw [UInt8.toNat_zero]
  omega

theorem clampCode_of_le {maxValue : UInt8} {a : Int} (h : (maxValue.toNat : Int) ≤ a) :
    clampCode maxValue a = maxValue := by
  have ha := clampCode_toNat maxValue a
  refine UInt8.toNat_inj.mp ?_
  omega

/-! ## Floats -/

/-- A float operation whose result is an infinity where it does not fit. -/
def finiteFloat (x : Rat) : Option Rat :=
  if |roundToFloat x| < 2 ^ 128 then some (roundToFloat x) else none

variable {maxValue : UInt8} {params : ScalarQuantizationParams Rat}

/-- The difference of the coordinate and the base, as floats are subtracted, is finite, and its
product with the scale is in the range of `int` up to the rounding. -/
def Quantizable (params : ScalarQuantizationParams Rat) (x : Rat) : Prop :=
  |roundToFloat (x - params.quantizationBase)| < 2 ^ 128 ∧
    -(2 ^ 31 + 128) ≤ roundToFloat (x - params.quantizationBase) * params.quantizationScale ∧
    roundToFloat (x - params.quantizationBase) * params.quantizationScale < 2 ^ 31 - 64

/-- The product before it is rounded to an integer. -/
def scaledFloat (params : ScalarQuantizationParams Rat) (x : Rat) : Rat :=
  roundToFloat (roundToFloat (x - params.quantizationBase) * params.quantizationScale)

/-- What is in the range of `int` is finite. -/
theorem abs_roundToFloat_lt {u : Rat} (hlo : -(2 ^ 31 + 128) ≤ u) (hhi : u < 2 ^ 31 - 64) :
    |roundToFloat u| < 2 ^ 128 := by
  have hbelow := (lt_roundToFloat_iff u).mpr hlo
  have habove := (roundToFloat_lt_iff u).mpr hhi
  rw [abs_lt]
  constructor
  · linarith
  · linarith

theorem quantizeCoordinate_of_quantizable {x : Rat} (hx : Quantizable params x) :
    quantizeCoordinate finiteFloat maxValue params x =
      some (clampCode maxValue (round (scaledFloat params x))) := by
  obtain ⟨hfinite, hlo, hhi⟩ := hx
  obtain ⟨rounded, hrounded⟩ := Option.isSome_iff_exists.mp
    ((isSome_toInt32_round_iff _).mpr ⟨hlo, hhi⟩)
  rw [quantizeCoordinate, finiteFloat, if_pos hfinite, Option.bind_eq_bind, Option.bind_some,
    finiteFloat, if_pos (abs_roundToFloat_lt hlo hhi), Option.bind_eq_bind, Option.bind_some,
    hrounded, scaledFloat, (toInt32_eq_some_iff.mp hrounded).1]
  rfl

theorem quantizable_of_quantizeCoordinate {x : Rat} {code : UInt8}
    (h : quantizeCoordinate finiteFloat maxValue params x = some code) : Quantizable params x := by
  obtain ⟨difference, hdifference, h⟩ := Option.bind_eq_some_iff.mp h
  obtain ⟨scaled, hscaled, h⟩ := Option.bind_eq_some_iff.mp h
  obtain ⟨rounded, hrounded, -⟩ := Option.bind_eq_some_iff.mp h
  rw [finiteFloat, Option.ite_none_right_eq_some, Option.some.injEq] at hdifference hscaled
  obtain ⟨hfinite, rfl⟩ := hdifference
  obtain ⟨-, rfl⟩ := hscaled
  refine ⟨hfinite, (isSome_toInt32_round_iff _).mp ?_⟩
  rw [hrounded]
  rfl

/-! ## The order of the codes -/

theorem scaledFloat_mono (hscale : 0 ≤ params.quantizationScale) : Monotone (scaledFloat params) := by
  intro x y hxy
  refine roundToFloat_mono (mul_le_mul_of_nonneg_right (roundToFloat_mono ?_) hscale)
  linarith

theorem scaledFloat_nonpos (hscale : 0 ≤ params.quantizationScale) {x : Rat}
    (hx : x ≤ params.quantizationBase) : scaledFloat params x ≤ 0 :=
  roundToFloat_nonpos (mul_nonpos_of_nonpos_of_nonneg (roundToFloat_nonpos (by linarith)) hscale)

/-- One operation loses less than one part in `2 ^ 23`. -/
theorem le_roundToFloat {u : Rat} (hu : 0 < u) : u - u / 2 ^ 23 ≤ roundToFloat u := by
  have hle := le_roundFloat (p := fltMantDig) (by decide) hu
  have hloss : u - u / 2 ^ 23 ≤ u * (1 - 1 / 2 ^ fltMantDig) := by
    rw [show fltMantDig = 24 from rfl]
    norm_num
    linarith
  rw [roundToFloat, roundSigned_of_pos _ hu]
  exact hloss.trans hle

/-- The two roundings cannot push a coordinate above the range below the greatest code. -/
theorem le_scaledFloat (hscale : 0 < params.quantizationScale) {x : Rat}
    (hx : params.quantizationBase + maxValue.toNat / params.quantizationScale < x) :
    (maxValue.toNat : Rat) - 1 / 2 < scaledFloat params x := by
  have hmax : (maxValue.toNat : Rat) ≤ 255 := by exact_mod_cast Nat.le_of_lt_succ maxValue.toNat_lt
  have hnonneg : (0 : Rat) ≤ maxValue.toNat := Nat.cast_nonneg _
  have hratio : 0 ≤ (maxValue.toNat : Rat) / params.quantizationScale := div_nonneg hnonneg hscale.le
  have hdifference : 0 < x - params.quantizationBase := by linarith
  have hfirst := le_roundToFloat hdifference
  -- the product is at least as great as that of the end of the range
  have hproduct : (maxValue.toNat : Rat) - maxValue.toNat / 2 ^ 23 ≤
      roundToFloat (x - params.quantizationBase) * params.quantizationScale := by
    have hend : (maxValue.toNat : Rat) < (x - params.quantizationBase) * params.quantizationScale := by
      rw [← div_lt_iff₀ hscale]
      linarith
    have hmul := mul_le_mul_of_nonneg_right hfirst hscale.le
    have hsplit : (x - params.quantizationBase - (x - params.quantizationBase) / 2 ^ 23) *
        params.quantizationScale = (x - params.quantizationBase) * params.quantizationScale -
          (x - params.quantizationBase) * params.quantizationScale / 2 ^ 23 := by
      ring
    rw [hsplit] at hmul
    linarith
  rw [scaledFloat]
  rcases hnonneg.lt_or_eq with hpos | hzero
  · have hsecond := le_roundToFloat
      (u := roundToFloat (x - params.quantizationBase) * params.quantizationScale) (by linarith)
    linarith
  · rw [← hzero] at hproduct ⊢
    have hsecond := roundToFloat_nonneg
      (show 0 ≤ roundToFloat (x - params.quantizationBase) * params.quantizationScale by linarith)
    linarith

theorem le_round_of_lt {t : Rat} {n : Nat} (h : (n : Rat) - 1 / 2 < t) : (n : Int) ≤ round t := by
  cases n with
  | zero =>
    refine round_nonneg ?_
    push_cast at h
    linarith
  | succ n =>
    have hlt : (n : Int) < round t := by
      rw [lt_round_iff (Int.natCast_nonneg n)]
      push_cast at h ⊢
      linarith
    push_cast
    omega

/-! ## Queries -/

/-- The codes of two coordinates, the first not greater than the second: both conversions are defined,
the codes are ordered, and outside the range of the collection they are the extreme ones. -/
def SaturatesInOrder (maxValue : UInt8) (params : ScalarQuantizationParams Rat) (x y : Rat) : Prop :=
  ∃ cx cy, quantizeCoordinate finiteFloat maxValue params x = some cx ∧
    quantizeCoordinate finiteFloat maxValue params y = some cy ∧ cx ≤ cy ∧
    ∀ z c, z = x ∧ c = cx ∨ z = y ∧ c = cy →
      (z < params.quantizationBase → c = 0) ∧
      (params.quantizationBase + maxValue.toNat / params.quantizationScale < z → c = maxValue)

/-- A collection of zeros has base 0 and scale 1. The query coordinate 3000000000 is a float without
an `int`. -/
theorem not_saturatesInOrder_three_billion :
    computeQuantizationParams 255 (fun _ => (0 : Rat)) 1 = ⟨0, 1⟩ ∧
      roundToFloat 3000000000 = 3000000000 ∧ ¬ SaturatesInOrder 255 ⟨0, 1⟩ 1 3000000000 := by
  have hfloat := roundFloat_natCast_mul_zpow (K := Rat) (p := fltMantDig) (m := 11718750)
    (by decide) (by decide) 8
  rw [show ((11718750 : Nat) : Rat) * 2 ^ (8 : Int) = 3000000000 by norm_num,
    ← roundSigned_of_pos _ (by norm_num)] at hfloat
  refine ⟨by simp [computeQuantizationParams], hfloat, ?_⟩
  rintro ⟨-, cy, -, hcy, -⟩
  have hrange := (quantizable_of_quantizeCoordinate hcy).2.2
  rw [sub_zero, mul_one, roundToFloat, hfloat] at hrange
  exact absurd hrange (by norm_num)

/-- The codes of a pair of coordinates are as they should be if and only if both can be converted. -/
theorem saturatesInOrder_iff (hscale : 0 < params.quantizationScale) {x y : Rat} (hxy : x ≤ y) :
    SaturatesInOrder maxValue params x y ↔ Quantizable params x ∧ Quantizable params y := by
  constructor
  · rintro ⟨cx, cy, hcx, hcy, -⟩
    exact ⟨quantizable_of_quantizeCoordinate hcx, quantizable_of_quantizeCoordinate hcy⟩
  · rintro ⟨hx, hy⟩
    have hends : ∀ z, (z < params.quantizationBase →
          clampCode maxValue (round (scaledFloat params z)) = 0) ∧
        (params.quantizationBase + maxValue.toNat / params.quantizationScale < z →
          clampCode maxValue (round (scaledFloat params z)) = maxValue) := by
      intro z
      constructor
      · intro hz
        have hnonpos := scaledFloat_nonpos hscale.le hz.le
        refine clampCode_of_nonpos maxValue ((round_le_iff le_rfl _).mpr ?_)
        push_cast
        linarith
      · intro hz
        exact clampCode_of_le (le_round_of_lt (le_scaledFloat hscale hz))
    refine ⟨_, _, quantizeCoordinate_of_quantizable hx, quantizeCoordinate_of_quantizable hy,
      clampCode_mono maxValue (round_mono (scaledFloat_mono hscale.le hxy)), ?_⟩
    rintro z c (⟨rfl, rfl⟩ | ⟨rfl, rfl⟩)
    · exact hends z
    · exact hends z

/-- A coordinate below and one above the range of a collection of zeros. -/
theorem saturatesInOrder_below_and_above : SaturatesInOrder 255 ⟨0, 1⟩ (-5) 300 := by
  have hfloat : ∀ m : Nat, 0 < m → m < 2 ^ 24 → roundToFloat (m : Rat) = m := by
    intro m hpos hlt
    have h := roundFloat_natCast_mul_zpow (K := Rat) (p := fltMantDig) hpos hlt 0
    rw [zpow_zero, mul_one] at h
    rw [roundToFloat, roundSigned_of_pos _ (Nat.cast_pos.mpr hpos), h]
  have hfive : roundToFloat (-5) = -5 := by
    rw [roundToFloat_neg]
    exact congrArg Neg.neg (hfloat 5 (by decide) (by decide))
  have hthree : roundToFloat 300 = 300 := hfloat 300 (by decide) (by decide)
  refine (saturatesInOrder_iff (by norm_num) (by norm_num)).mpr ⟨?_, ?_⟩
  · rw [Quantizable, sub_zero, hfive]
    norm_num [abs_lt]
  · rw [Quantizable, sub_zero, hthree]
    norm_num [abs_lt]

end PDXearch
