import PDXearch.Index.BlobCodec

/-!
# The range of the blob encoder

`EncodeFloatToInt16` in float arithmetic. The first scale is the finest: its product is converted to
`int32_t` before anything is compared, so a component can be encoded if and only if 100000 times it
can be converted. Where it can be, the other conversions can be too, and the clamp behind the loop is
reached by exactly the components out of range.
-/

namespace PDXearch

open Lib

/-- The component can be converted on the finest scale. -/
def BlobConvertible (v : Rat) : Prop :=
  -(2 ^ 31 + 128) ≤ v * 100000 ∧ v * 100000 < 2 ^ 31 - 64

theorem isSome_blobQuotient_zero_iff (v : Rat) :
    (blobQuotient roundToFloat v 0).isSome ↔ BlobConvertible v :=
  isSome_toInt32_round_iff _

/-- Then it can be converted on every scale, as the other products are smaller. -/
theorem BlobConvertible.blobQuotient_eq {v : Rat} (hv : BlobConvertible v) {x : Nat} (hx : x < 4) :
    blobQuotient roundToFloat v x = some (round (roundToFloat (v * blobInvScale x))) := by
  have hmin := blobInvScale_pos hx
  have hmax := blobInvScale_le hx
  have hsome : (toInt32 (round (roundToFloat (v * blobInvScale x)))).isSome := by
    rw [isSome_toInt32_round_iff]
    obtain ⟨hlo, hhi⟩ := hv
    rcases le_or_gt 0 v with hpos | hneg
    · have hle := mul_le_mul_of_nonneg_left hmax hpos
      have hnonneg : 0 ≤ v * blobInvScale x := mul_nonneg hpos (by linarith)
      exact ⟨by linarith, by linarith⟩
    · have hle := mul_le_mul_of_nonpos_left hmax hneg.le
      have hnonpos : v * blobInvScale x ≤ 0 := mul_nonpos_of_nonpos_of_nonneg hneg.le (by linarith)
      exact ⟨by linarith, by linarith⟩
  obtain ⟨q, hq⟩ := Option.isSome_iff_exists.mp hsome
  rw [blobQuotient, hq, (toInt32_eq_some_iff.mp hq).1]

/-- Encoding succeeds if the first conversion does. -/
theorem isSome_encodeFloatToInt16_iff (v : Rat) :
    (encodeFloatToInt16 roundToFloat v).isSome ↔ BlobConvertible v := by
  constructor
  · intro h
    rw [← isSome_blobQuotient_zero_iff]
    cases hq : blobQuotient roundToFloat v 0 with
    | some q => rfl
    | none =>
      have hnone : encodeFloatToInt16 roundToFloat v = none := by
        change encodeWithSelectors roundToFloat v (0 :: [1, 2, 3]) = none
        rw [encodeWithSelectors, hq]
        rfl
      rw [hnone] at h
      exact h
  · intro h
    rcases encodeFloatToInt16_cases roundToFloat fun x hx => h.blobQuotient_eq hx with
      ⟨x, -, -, -, hencode⟩ | ⟨-, hencode⟩
    · rw [hencode]
      rfl
    · rw [hencode]
      rfl

/-- The two bounds of the range, times 100, are floats. -/
theorem roundToFloat_bounds :
    roundToFloat 8191.5 = 8191.5 ∧ roundToFloat (-8192.5) = -8192.5 := by
  have hfloat : ∀ m : Nat, 0 < m → m < 2 ^ 24 →
      roundToFloat ((m : Rat) * 2 ^ (-1 : Int)) = m * 2 ^ (-1 : Int) := by
    intro m hpos hlt
    rw [roundToFloat, roundSigned_of_pos _ (mul_pos (Nat.cast_pos.mpr hpos) (zpow_two_pos _))]
    exact roundFloat_natCast_mul_zpow hpos hlt _
  have hmax := hfloat 16383 (by decide) (by decide)
  have hmin := hfloat 16385 (by decide) (by decide)
  rw [show ((16383 : Nat) : Rat) * 2 ^ (-1 : Int) = 8191.5 by norm_num] at hmax
  rw [show ((16385 : Nat) : Rat) * 2 ^ (-1 : Int) = 8192.5 by norm_num] at hmin
  exact ⟨hmax, by rw [roundToFloat_neg, hmin]⟩

/-- Above the range every rounded quotient is too great. -/
theorem lt_round_of_le {v : Rat} (hv : 81.915 ≤ v) {x : Nat} (hx : x < 4) :
    8191 < round (roundToFloat (v * blobInvScale x)) := by
  have hscale := mul_le_mul_of_nonneg_left (blobInvScale_pos hx) (show 0 ≤ v by linarith)
  have hmono := roundToFloat_mono (show (8191.5 : Rat) ≤ v * blobInvScale x by linarith)
  rw [roundToFloat_bounds.1] at hmono
  rw [lt_round_iff (by decide)]
  push_cast
  linarith

/-- Below the range every rounded quotient is too small. -/
theorem round_lt_of_le {v : Rat} (hv : v ≤ -81.925) {x : Nat} (hx : x < 4) :
    round (roundToFloat (v * blobInvScale x)) < -8192 := by
  have hscale := mul_le_mul_of_nonpos_left (blobInvScale_pos hx) (show v ≤ 0 by linarith)
  have hmono := roundToFloat_mono (show v * blobInvScale x ≤ (-8192.5 : Rat) by linarith)
  rw [roundToFloat_bounds.2] at hmono
  rw [round_lt_iff (by decide)]
  push_cast
  linarith

theorem encodeFloatToInt16_above {v : Rat} (hconv : BlobConvertible v) (hv : 81.915 ≤ v) :
    encodeFloatToInt16 roundToFloat v = some (packInt16 8191 3) := by
  rcases encodeFloatToInt16_cases roundToFloat fun x hx => hconv.blobQuotient_eq hx with
    ⟨x, hx, hfits, -⟩ | ⟨-, hencode⟩
  · exact absurd hfits.2 (not_le.mpr (lt_round_of_le hv hx))
  · rw [hencode, clampQuotient, if_pos (lt_round_of_le hv (by decide))]

theorem encodeFloatToInt16_below {v : Rat} (hconv : BlobConvertible v) (hv : v ≤ -81.925) :
    encodeFloatToInt16 roundToFloat v = some (packInt16 (-8192) 3) := by
  rcases encodeFloatToInt16_cases roundToFloat fun x hx => hconv.blobQuotient_eq hx with
    ⟨x, hx, hfits, -⟩ | ⟨-, hencode⟩
  · exact absurd hfits.1 (not_le.mpr (round_lt_of_le hv hx))
  · have hlt := round_lt_of_le hv (show 3 < 4 by decide)
    rw [hencode, clampQuotient, if_neg (by omega), if_pos hlt]

/-! ## Signs -/

theorem clampQuotient_bounds (q : Int) : -8192 ≤ clampQuotient q ∧ clampQuotient q ≤ 8191 := by
  rw [clampQuotient]
  split_ifs <;> omega

/-- An encoded number and its quotient: between zero and the number, or clamped. -/
theorem exists_packInt16_of_encode {v : Rat} {e : BitVec 16}
    (he : encodeFloatToInt16 roundToFloat v = some e) :
    ∃ q x, x < 4 ∧ e = packInt16 q x ∧ (-8192 ≤ q ∧ q ≤ 8191) ∧ (0 ≤ v → 0 ≤ q) ∧
      (v ≤ 0 → q ≤ 0) := by
  have hconv : BlobConvertible v := by
    rw [← isSome_encodeFloatToInt16_iff, he]
    rfl
  have hsign : ∀ x < 4, (0 ≤ v → 0 ≤ round (roundToFloat (v * blobInvScale x))) ∧
      (v ≤ 0 → round (roundToFloat (v * blobInvScale x)) ≤ 0) := by
    intro x hx
    have hscale : 0 ≤ blobInvScale x := le_trans (by norm_num) (blobInvScale_pos hx)
    constructor
    · intro hv
      have h := roundToFloat_nonneg (mul_nonneg hv hscale)
      exact round_nonneg (by linarith)
    · intro hv
      have h := roundToFloat_nonpos (mul_nonpos_of_nonpos_of_nonneg hv hscale)
      rw [round_le_iff le_rfl]
      push_cast
      linarith
  rcases encodeFloatToInt16_cases roundToFloat fun x hx => hconv.blobQuotient_eq hx with
    ⟨x, hx, hfits, -, hencode⟩ | ⟨-, hencode⟩
  · exact ⟨_, x, hx, Option.some.inj (he.symm.trans hencode), hfits, hsign x hx⟩
  · obtain ⟨hpos, hneg⟩ := hsign 3 (by decide)
    refine ⟨_, 3, by decide, Option.some.inj (he.symm.trans hencode), clampQuotient_bounds _,
      fun hv => ?_, fun hv => ?_⟩
    · have hq := hpos hv
      rw [clampQuotient]
      split_ifs <;> omega
    · have hq := hneg hv
      rw [clampQuotient]
      split_ifs <;> omega

/-- Decoding keeps the sign of the quotient. -/
theorem decodeInt16ToFloat_sign {q : Int} (hq : -8192 ≤ q ∧ q ≤ 8191) {x : Nat} (hx : x < 4) :
    (0 ≤ q → 0 ≤ decodeInt16ToFloat roundToFloat (packInt16 q x)) ∧
      (q ≤ 0 → decodeInt16ToFloat roundToFloat (packInt16 q x) ≤ 0) := by
  have hscale : 0 ≤ blobScale roundToFloat x := by
    refine roundToFloat_nonneg ?_
    interval_cases x <;> norm_num
  rw [decodeInt16ToFloat_packInt16 roundToFloat hq.1 hq.2 hx]
  constructor
  · intro h
    exact roundToFloat_nonneg (mul_nonneg (Int.cast_nonneg h) hscale)
  · intro h
    exact roundToFloat_nonpos (mul_nonpos_of_nonpos_of_nonneg (Int.cast_nonpos.mpr h) hscale)

/-! ## Components of any size -/

/-- Every conversion on the way is defined, components out of range become the greatest and the least
number that can be decoded, and no component changes its sign. -/
structure ClampsComponent (v : Rat) : Prop where
  converts : (encodeFloatToInt16 roundToFloat v).isSome
  above : 81.915 ≤ v → ∃ e, encodeFloatToInt16 roundToFloat v = some e ∧
    decodeInt16ToFloat id e = 81.91 ∧
    decodeInt16ToFloat roundToFloat e = roundToFloat (8191 * roundToFloat 0.01)
  below : v ≤ -81.925 → ∃ e, encodeFloatToInt16 roundToFloat v = some e ∧
    decodeInt16ToFloat id e = -81.92 ∧
    decodeInt16ToFloat roundToFloat e = roundToFloat (-8192 * roundToFloat 0.01)
  sign : ∀ e, encodeFloatToInt16 roundToFloat v = some e →
    (0 ≤ v → 0 ≤ decodeInt16ToFloat roundToFloat e) ∧
      (v ≤ 0 → decodeInt16ToFloat roundToFloat e ≤ 0)

/-- The component 30000000 is a float whose product with 100000 has no `int32_t`. -/
theorem not_clampsComponent_thirty_million :
    roundToFloat 30000000 = 30000000 ∧ ¬ ClampsComponent 30000000 := by
  constructor
  · have hfloat := roundFloat_natCast_mul_zpow (K := Rat) (p := fltMantDig) (m := 15000000)
      (by decide) (by decide) 1
    rw [show ((15000000 : Nat) : Rat) * 2 ^ (1 : Int) = 30000000 by norm_num] at hfloat
    rw [roundToFloat, roundSigned_of_pos _ (by norm_num), hfloat]
  · intro h
    have hconv := (isSome_encodeFloatToInt16_iff _).mp h.converts
    exact absurd hconv.2 (by norm_num)

/-- The encoder treats a component as it should if and only if the first conversion is defined. -/
theorem clampsComponent_iff (v : Rat) :
    ClampsComponent v ↔ -(2 ^ 31 + 128) ≤ v * 100000 ∧ v * 100000 < 2 ^ 31 - 64 := by
  change ClampsComponent v ↔ BlobConvertible v
  constructor
  · intro h
    exact (isSome_encodeFloatToInt16_iff v).mp h.converts
  · intro hconv
    refine ⟨(isSome_encodeFloatToInt16_iff v).mpr hconv, fun hv => ?_, fun hv => ?_, fun e he => ?_⟩
    · refine ⟨_, encodeFloatToInt16_above hconv hv, ?_, ?_⟩
      · rw [decodeInt16ToFloat_packInt16 id (by decide) (by decide) (by decide)]
        norm_num [blobScale]
      · rw [decodeInt16ToFloat_packInt16 _ (by decide) (by decide) (by decide)]
        norm_num [blobScale]
    · refine ⟨_, encodeFloatToInt16_below hconv hv, ?_, ?_⟩
      · rw [decodeInt16ToFloat_packInt16 id (by decide) (by decide) (by decide)]
        norm_num [blobScale]
      · rw [decodeInt16ToFloat_packInt16 _ (by decide) (by decide) (by decide)]
        norm_num [blobScale]
    · obtain ⟨q, x, hx, rfl, hq, hpos, hneg⟩ := exists_packInt16_of_encode he
      obtain ⟨hpos', hneg'⟩ := decodeInt16ToFloat_sign hq hx
      exact ⟨fun hv => hpos' (hpos hv), fun hv => hneg' (hneg hv)⟩

end PDXearch
