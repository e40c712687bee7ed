import PDXearch.Kernel.Rounding
import Mathlib.Algebra.BigOperators.Field
import Mathlib.Data.Rat.Floor
import Mathlib.Algebra.Order.BigOperators.Ring.Finset
import Mathlib.Tactic.FieldSimp

/-!
# The error of quantized distances

The quantization parameters of a collection put every element of it between `base` and
`base + MAX_VALUE / scale`. Such an element is rounded and not clamped, so that its code gives it
back to within half a step, the difference of two elements to within one step, and the squared
distance of two embeddings up to an error that is the sum over the dimensions.
-/

namespace PDXearch

section Extremes

variable {K : Type} [LinearOrder K]

theorem foldl_min_le (f : Nat → K) (x : K) {n k : Nat} (hk : k < n) :
    (List.range n).foldl (fun m i => min m (f i)) x ≤ f k := by
  refine Lib.foldl_range_induction (P := fun t m => ∀ k < t, m ≤ f k)
    (fun k hk => absurd hk (Nat.not_lt_zero k)) (fun t m _ hm k hk => ?_) k hk
  rcases Nat.lt_succ_iff_lt_or_eq.mp hk with hlt | rfl
  · exact (min_le_left _ _).trans (hm k hlt)
  · exact min_le_right _ _

theorem le_foldl_max (f : Nat → K) (x : K) {n k : Nat} (hk : k < n) :
    f k ≤ (List.range n).foldl (fun m i => max m (f i)) x := by
  refine Lib.foldl_range_induction (P := fun t m => ∀ k < t, f k ≤ m)
    (fun k hk => absurd hk (Nat.not_lt_zero k)) (fun t m _ hm k hk => ?_) k hk
  rcases Nat.lt_succ_iff_lt_or_eq.mp hk with hlt | rfl
  · exact (hm k hlt).trans (le_max_left _ _)
  · exact le_max_right _ _

/-- The loop over equal elements keeps their value. -/
theorem foldl_min_eq {f : Nat → K} {n : Nat} (h : ∀ k < n, f k = f 0) :
    (List.range n).foldl (fun m i => min m (f i)) (f 0) = f 0 := by
  refine Lib.foldl_range_induction (P := fun _ m => m = f 0) rfl fun t m ht hm => ?_
  rw [hm, h t ht, min_self]

end Extremes

section Parameters

variable {K : Type} [Field K] [LinearOrder K]

theorem quantizationBase_le (maxValue : UInt8) (embeddings : Nat → K) {n k : Nat} (hk : k < n) :
    (computeQuantizationParams maxValue embeddings n).quantizationBase ≤ embeddings k :=
  foldl_min_le embeddings _ hk

variable [IsStrictOrderedRing K]

theorem maxValue_cast_pos {maxValue : UInt8} (hmax : 1 ≤ maxValue) : (0 : K) < maxValue.toNat := by
  rw [UInt8.le_iff_toNat_le] at hmax
  exact Nat.cast_pos.mpr hmax

theorem quantizationScale_pos {maxValue : UInt8} (hmax : 1 ≤ maxValue) (embeddings : Nat → K)
    (n : Nat) : 0 < (computeQuantizationParams maxValue embeddings n).quantizationScale := by
  simp only [computeQuantizationParams]
  split_ifs with hrange
  · exact div_pos (maxValue_cast_pos hmax) hrange
  · exact one_pos

theorem scaled_nonneg {maxValue : UInt8} (hmax : 1 ≤ maxValue) (embeddings : Nat → K) {n k : Nat}
    (hk : k < n) :
    let params := computeQuantizationParams maxValue embeddings n
    0 ≤ (embeddings k - params.quantizationBase) * params.quantizationScale :=
  mul_nonneg (sub_nonneg.mpr (quantizationBase_le maxValue embeddings hk))
    (quantizationScale_pos hmax embeddings n).le

theorem scaled_le {maxValue : UInt8} (embeddings : Nat → K) {n k : Nat} (hk : k < n) :
    let params := computeQuantizationParams maxValue embeddings n
    (embeddings k - params.quantizationBase) * params.quantizationScale ≤ maxValue.toNat := by
  have hmin := foldl_min_le embeddings (embeddings 0) hk
  have hmax := le_foldl_max embeddings (embeddings 0) hk
  simp only [computeQuantizationParams]
  split_ifs with hrange
  · rw [mul_div_assoc', div_le_iff₀ hrange, mul_comm]
    exact mul_le_mul_of_nonneg_left (by linarith) (Nat.cast_nonneg _)
  · have hnonneg : (0 : K) ≤ maxValue.toNat := Nat.cast_nonneg _
    linarith

end Parameters

/-! ## One element -/

section Element

variable {K : Type} [Field K] [LinearOrder K] [IsStrictOrderedRing K] [FloorRing K]
  {maxValue : UInt8} {params : ScalarQuantizationParams K} {x : K}

/-- Between the bounds the rounded value fits into the code. -/
theorem round_mem_of_scaled_mem {t : K} (hlo : 0 ≤ t) (hhi : t ≤ maxValue.toNat) :
    0 ≤ round t ∧ round t ≤ (maxValue.toNat : Int) := by
  refine ⟨round_nonneg (by linarith), ?_⟩
  rw [round_le_iff (Int.natCast_nonneg _), Int.cast_natCast]
  linarith

/-- No branch of the clamp is taken. -/
theorem quantize_toNat (hlo : 0 ≤ (x - params.quantizationBase) * params.quantizationScale)
    (hhi : (x - params.quantizationBase) * params.quantizationScale ≤ maxValue.toNat) :
    ((quantize maxValue params x).toNat : Int) =
      round ((x - params.quantizationBase) * params.quantizationScale) := by
  obtain ⟨hnonneg, hle⟩ := round_mem_of_scaled_mem hlo hhi
  have hbyte := maxValue.toNat_lt
  rw [quantize, toInt32_of_mem (by omega) (by omega), Option.getD_some, if_neg (not_lt.mpr hle),
    if_neg (not_lt.mpr hnonneg), UInt8.toNat_ofNat']
  omega

/-- Half a step. -/
theorem abs_reconstruct_sub_le (hscale : 0 < params.quantizationScale)
    (hlo : 0 ≤ (x - params.quantizationBase) * params.quantizationScale)
    (hhi : (x - params.quantizationBase) * params.quantizationScale ≤ maxValue.toNat) :
    |params.quantizationBase + (quantize maxValue params x).toNat / params.quantizationScale - x| ≤
      1 / (2 * params.quantizationScale) := by
  have hcode : ((quantize maxValue params x).toNat : K) =
      (round ((x - params.quantizationBase) * params.quantizationScale) : Int) := by
    rw [← quantize_toNat hlo hhi, Int.cast_natCast]
  have herror := abs_round_sub_le ((x - params.quantizationBase) * params.quantizationScale)
  have heq : params.quantizationBase + (quantize maxValue params x).toNat /
      params.quantizationScale - x =
      (round ((x - params.quantizationBase) * params.quantizationScale) -
        (x - params.quantizationBase) * params.quantizationScale) / params.quantizationScale := by
    rw [hcode]
    field_simp
    ring
  rw [heq, abs_div, abs_of_pos hscale, div_le_div_iff₀ hscale (by linarith)]
  calc |(round ((x - params.quantizationBase) * params.quantizationScale) : K) -
          (x - params.quantizationBase) * params.quantizationScale| *
        (2 * params.quantizationScale)
      ≤ 1 / 2 * (2 * params.quantizationScale) :=
        mul_le_mul_of_nonneg_right herror (by linarith)
    _ = 1 * params.quantizationScale := by ring

end Element

/-! ## Distances -/

section Distances

variable {K : Type} [Field K] [LinearOrder K] [IsStrictOrderedRing K]

omit [LinearOrder K] [IsStrictOrderedRing K] in
theorem sqDiff_cast (a b : UInt8) : (sqDiff a b : K) = ((a.toNat : K) - b.toNat) ^ 2 := by
  have hint : ((sqDiff a b : Nat) : Int) = ((a.toNat : Int) - b.toNat) ^ 2 := by
    rw [sqDiff, Int.toNat_of_nonneg (mul_self_nonneg _), pow_two]
  have hcast := congrArg (Int.cast (R := K)) hint
  push_cast at hcast
  exact hcast

theorem abs_sq_sub_sq_le {a b e : K} (h : |a - b| ≤ e) : |a ^ 2 - b ^ 2| ≤ e * (2 * |a|) + e ^ 2 := by
  have he : 0 ≤ e := (abs_nonneg _).trans h
  have hsum : |a + b| ≤ 2 * |a| + e := by
    calc |a + b| = |2 * a - (a - b)| := by ring_nf
      _ ≤ |2 * a| + |a - b| := abs_sub _ _
      _ ≤ 2 * |a| + e := by
        rw [abs_mul, abs_of_pos (two_pos : (0 : K) < 2)]
        linarith
  calc |a ^ 2 - b ^ 2| = |a - b| * |a + b| := by rw [← abs_mul]; ring_nf
    _ ≤ e * (2 * |a| + e) := mul_le_mul h hsum (abs_nonneg _) he
    _ = e * (2 * |a|) + e ^ 2 := by ring

/-- The squared byte differences of as many dimensions as an index may have fit into 32 bits. -/
theorem sum_sqDiff_lt {D : Nat} (hD : D ≤ pdxMaxDims) (x y : Nat → UInt8) :
    ∑ d ∈ Finset.range D, sqDiff (x d) (y d) < 2 ^ 32 := by
  have hle := Finset.sum_le_card_nsmul (Finset.range D) (fun d => sqDiff (x d) (y d)) (255 * 255)
    fun d _ => sqDiff_le _ _
  rw [Finset.card_range, nsmul_eq_mul, Nat.cast_id] at hle
  rw [pdxMaxDims] at hD
  omega

/-- Codes that give back every coordinate to within half a step give back the squared distance of
two embeddings, whatever the number of dimensions. -/
theorem abs_distance_sub_le {base scale : K} (hscale : 0 < scale) {D : Nat} {x y : Nat → K}
    {cx cy : Nat → UInt8} (hx : ∀ d < D, |base + (cx d).toNat / scale - x d| ≤ 1 / (2 * scale))
    (hy : ∀ d < D, |base + (cy d).toNat / scale - y d| ≤ 1 / (2 * scale)) :
    |∑ d ∈ Finset.range D, (x d - y d) ^ 2 -
        ((∑ d ∈ Finset.range D, sqDiff (cx d) (cy d) : Nat) : K) / scale ^ 2| ≤
      2 / scale * ∑ d ∈ Finset.range D, |x d - y d| + D / scale ^ 2 := by
  have hterm : ∀ d ∈ Finset.range D,
      |(x d - y d) ^ 2 - (sqDiff (cx d) (cy d) : K) / scale ^ 2| ≤
        2 / scale * |x d - y d| + 1 / scale ^ 2 := by
    intro d hd
    have hd := Finset.mem_range.mp hd
    have hstep : |x d - y d - ((cx d).toNat - (cy d).toNat) / scale| ≤ 1 / scale := by
      calc |x d - y d - ((cx d).toNat - (cy d).toNat) / scale|
          = |base + (cy d).toNat / scale - y d - (base + (cx d).toNat / scale - x d)| := by
            congr 1
            ring
        _ ≤ |base + (cy d).toNat / scale - y d| + |base + (cx d).toNat / scale - x d| := abs_sub _ _
        _ ≤ 1 / (2 * scale) + 1 / (2 * scale) := add_le_add (hy d hd) (hx d hd)
        _ = 1 / scale := by
          field_simp
          ring
    have hsquare := abs_sq_sub_sq_le hstep
    rw [div_pow, ← sqDiff_cast] at hsquare
    refine hsquare.trans_eq ?_
    ring
  rw [Nat.cast_sum, Finset.sum_div, ← Finset.sum_sub_distrib]
  calc |∑ d ∈ Finset.range D, ((x d - y d) ^ 2 - (sqDiff (cx d) (cy d) : K) / scale ^ 2)|
      ≤ ∑ d ∈ Finset.range D, |(x d - y d) ^ 2 - (sqDiff (cx d) (cy d) : K) / scale ^ 2| :=
        Finset.abs_sum_le_sum_abs _ _
    _ ≤ ∑ d ∈ Finset.range D, (2 / scale * |x d - y d| + 1 / scale ^ 2) :=
        Finset.sum_le_sum hterm
    _ = 2 / scale * ∑ d ∈ Finset.range D, |x d - y d| + D / scale ^ 2 := by
      rw [Finset.sum_add_distrib, ← Finset.mul_sum, Finset.sum_const, Finset.card_range,
        nsmul_eq_mul, mul_one_div]

end Distances

/-- The collection of `n` embeddings of `D` dimensions, row by row in `embeddings`: its
parameters, the codes of its elements and the distances of the codes. -/
theorem quantization_error {K : Type} [Field K] [LinearOrder K] [IsStrictOrderedRing K]
    [FloorRing K] (maxValue : UInt8) (hmax : 1 ≤ maxValue)
    (embeddings : Nat → K) (n D : Nat) :
    let params : ScalarQuantizationParams K :=
      computeQuantizationParams maxValue embeddings (n * D)
    let base := params.quantizationBase
    let scale := params.quantizationScale
    let coordinate := fun i d => embeddings (i * D + d)
    let code := fun i d => quantize maxValue params (coordinate i d)
    let dq := fun i j => ∑ d ∈ Finset.range D, sqDiff (code i d) (code j d)
    0 < scale ∧
    (∀ i < n, ∀ d < D,
      ((code i d).toNat : Int) = round ((coordinate i d - base) * scale) ∧
        |base + (code i d).toNat / scale - coordinate i d| ≤ 1 / (2 * scale)) ∧
    (∀ i < n, ∀ j < n,
      |∑ d ∈ Finset.range D, (coordinate i d - coordinate j d) ^ 2 - (dq i j : K) / scale ^ 2| ≤
          2 / scale * ∑ d ∈ Finset.range D, |coordinate i d - coordinate j d| + D / scale ^ 2 ∧
        (D ≤ pdxMaxDims → horizontalU8 (code i) (code j) D = dq i j)) ∧
    ((∀ k < n * D, embeddings k = embeddings 0) →
      (∀ i < n, ∀ d < D, code i d = 0) ∧ ∀ i < n, ∀ j < n, dq i j = 0) := by
  intro params base scale coordinate code dq
  have hscale : 0 < scale := quantizationScale_pos hmax embeddings (n * D)
  have hidx : ∀ i < n, ∀ d < D, i * D + d < n * D := by
    intro i hi d hd
    calc i * D + d < i * D + D := Nat.add_lt_add_left hd _
      _ = (i + 1) * D := (Nat.succ_mul i D).symm
      _ ≤ n * D := Nat.mul_le_mul_right D hi
  have hlo : ∀ i < n, ∀ d < D, 0 ≤ (coordinate i d - base) * scale := fun i hi d hd =>
    scaled_nonneg hmax embeddings (hidx i hi d hd)
  have hhi : ∀ i < n, ∀ d < D, (coordinate i d - base) * scale ≤ maxValue.toNat :=
    fun i hi d hd => scaled_le embeddings (hidx i hi d hd)
  have hstep : ∀ i < n, ∀ d < D,
      |base + (code i d).toNat / scale - coordinate i d| ≤ 1 / (2 * scale) := fun i hi d hd =>
    abs_reconstruct_sub_le hscale (hlo i hi d hd) (hhi i hi d hd)
  refine ⟨hscale, fun i hi d hd => ⟨quantize_toNat (hlo i hi d hd) (hhi i hi d hd),
    hstep i hi d hd⟩, fun i hi j hj => ⟨abs_distance_sub_le hscale (hstep i hi) (hstep j hj),
    fun hD => ?_⟩, fun heq => ?_⟩
  · rw [horizontalU8_eq]
    exact Nat.mod_eq_of_lt (sum_sqDiff_lt hD _ _)
  · -- every element is the base
    have hcode : ∀ i < n, ∀ d < D, code i d = 0 := by
      intro i hi d hd
      have hzero : (coordinate i d - base) * scale = 0 := by
        rw [show base = embeddings 0 from foldl_min_eq heq,
          show coordinate i d = embeddings 0 from heq _ (hidx i hi d hd), sub_self, zero_mul]
      have hcast := quantize_toNat (hlo i hi d hd) (hhi i hi d hd)
      rw [hzero, round_zero] at hcast
      exact UInt8.toNat_inj.mp (Int.natCast_eq_zero.mp hcast)
    refine ⟨hcode, fun i hi j hj => Finset.sum_eq_zero fun d hd => ?_⟩
    rw [hcode i hi d (Finset.mem_range.mp hd), hcode j hj d (Finset.mem_range.mp hd)]
    rfl

/-- The numbers -1, 0, 1, 3 as two embeddings of two dimensions, and four times the same number. -/
theorem quantization_error_two_embeddings :
    (let params := computeQuantizationParams 255 (fun k => [(-1 : Rat), 0, 1, 3].getD k 0) (2 * 2)
      let code := fun i d => quantize 255 params ([(-1 : Rat), 0, 1, 3].getD (i * 2 + d) 0)
      horizontalU8 (code 0) (code 1) 2 = ∑ d ∈ Finset.range 2, sqDiff (code 0 d) (code 1 d)) ∧
    ∀ i < 2, ∀ d < 2,
      quantize 255 (computeQuantizationParams 255 (fun _ => (7 : Rat)) (2 * 2)) 7 = 0 :=
  ⟨((quantization_error 255 (by decide) (fun k => [(-1 : Rat), 0, 1, 3].getD k 0) 2 2).2.2.1 0
      (by decide) 1 (by decide)).2 (by decide),
    ((quantization_error 255 (by decide) (fun _ => (7 : Rat)) 2 2).2.2.2 fun _ _ => rfl).1⟩

end PDXearch
