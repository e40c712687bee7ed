import Mathlib.Algebra.BigOperators.Field
import Mathlib.Algebra.Order.BigOperators.Ring.Finset
import Mathlib.Algebra.Order.Field.Basic
import Mathlib.Data.Matrix.Mul
import Mathlib.Tactic.Ring
import Mathlib.Analysis.Real.Sqrt

/-!
# Distances of rotated and of unit vectors

A matrix with orthonormal columns keeps squared distances. Between vectors that were divided by
their lengths the squared distance is twice one minus their cosine, which is between -1 and 1.
Lengths satisfy the triangle inequality. The square root is a parameter.
-/

namespace PDXearch.Lib

open Matrix

/-! ## Square roots -/

section Sqrt

variable {K : Type} [Field K] [LinearOrder K]

/-- The square root of the numbers that have one. -/
structure IsSqrt (sqrt : K → K) : Prop where
  nonneg : ∀ x, 0 ≤ x → 0 ≤ sqrt x
  mul_self : ∀ x, 0 ≤ x → sqrt x * sqrt x = x

variable [IsStrictOrderedRing K] {sqrt : K → K} {x y : K}

theorem IsSqrt.le_iff (h : IsSqrt sqrt) (hx : 0 ≤ x) (hy : 0 ≤ y) : sqrt x ≤ sqrt y ↔ x ≤ y := by
  have hsq := mul_self_le_mul_self_iff (h.nonneg x hx) (h.nonneg y hy)
  rwa [h.mul_self x hx, h.mul_self y hy] at hsq

omit [IsStrictOrderedRing K] in
theorem IsSqrt.pos (h : IsSqrt sqrt) (hx : 0 < x) : 0 < sqrt x := by
  refine (h.nonneg x hx.le).lt_of_ne fun hzero => hx.ne ?_
  rw [← h.mul_self x hx.le, ← hzero, mul_zero]

theorem IsSqrt.mul (h : IsSqrt sqrt) (hx : 0 ≤ x) (hy : 0 ≤ y) :
    sqrt (x * y) = sqrt x * sqrt y := by
  have hroots := mul_nonneg (h.nonneg x hx) (h.nonneg y hy)
  refine (mul_self_inj (h.nonneg _ (mul_nonneg hx hy)) hroots).mp ?_
  calc sqrt (x * y) * sqrt (x * y) = x * y := h.mul_self _ (mul_nonneg hx hy)
    _ = sqrt x * sqrt x * (sqrt y * sqrt y) := by rw [h.mul_self x hx, h.mul_self y hy]
    _ = sqrt x * sqrt y * (sqrt x * sqrt y) := by ring

theorem IsSqrt.self_mul_self (h : IsSqrt sqrt) (hx : 0 ≤ x) : sqrt (x * x) = x :=
  (mul_self_inj (h.nonneg _ (mul_self_nonneg x)) hx).mp (h.mul_self _ (mul_self_nonneg x))

theorem isSqrt_sqrt : IsSqrt Real.sqrt :=
  ⟨fun x _ => Real.sqrt_nonneg x, fun _ hx => Real.mul_self_sqrt hx⟩

end Sqrt

variable {ι K : Type} [Fintype ι]

/-- The squared Euclidean distance. -/
def sqDist [CommRing K] (x y : ι → K) : K := (x - y) ⬝ᵥ (x - y)

theorem sqDist_comm [CommRing K] (x y : ι → K) : sqDist x y = sqDist y x := by
  rw [sqDist, sqDist, ← neg_sub, neg_dotProduct_neg]

section Rotation

variable [CommRing K] [DecidableEq ι] {A : Matrix ι ι K}

theorem mulVec_dotProduct_mulVec (hA : Aᵀ * A = 1) (x y : ι → K) :
    A *ᵥ x ⬝ᵥ A *ᵥ y = x ⬝ᵥ y := by
  rw [dotProduct_mulVec, vecMul_mulVec, hA, vecMul_one]

theorem sqDist_mulVec (hA : Aᵀ * A = 1) (x y : ι → K) :
    sqDist (A *ᵥ x) (A *ᵥ y) = sqDist x y := by
  rw [sqDist, ← mulVec_sub, mulVec_dotProduct_mulVec hA, sqDist]

end Rotation

/-! ## Unit vectors -/

section Unit

theorem sqDist_eq [CommRing K] (x y : ι → K) :
    sqDist x y = x ⬝ᵥ x + y ⬝ᵥ y - (x ⬝ᵥ y + x ⬝ᵥ y) := by
  rw [sqDist, sub_dotProduct, dotProduct_sub, dotProduct_sub, dotProduct_comm y x]
  ring

variable [Field K] [LinearOrder K]

/-- The vector divided by its length. -/
def unitVector (sqrt : K → K) (x : ι → K) : ι → K := fun i => x i / sqrt (x ⬝ᵥ x)

/-- The cosine of the angle between two vectors. -/
def cosine (sqrt : K → K) (x y : ι → K) : K := x ⬝ᵥ y / sqrt (x ⬝ᵥ x * (y ⬝ᵥ y))

variable [IsStrictOrderedRing K] {sqrt : K → K} {x y : ι → K}

theorem dotProduct_self_nonneg (x : ι → K) : 0 ≤ x ⬝ᵥ x :=
  Finset.sum_nonneg fun i _ => mul_self_nonneg (x i)

theorem dotProduct_self_pos (hx : x ≠ 0) : 0 < x ⬝ᵥ x := by
  obtain ⟨i, hi⟩ := Function.ne_iff.mp hx
  exact Finset.sum_pos' (fun j _ => mul_self_nonneg (x j))
    ⟨i, Finset.mem_univ i, mul_self_pos.mpr hi⟩

theorem unitVector_dotProduct_unitVector (hsqrt : IsSqrt sqrt) (x y : ι → K) :
    unitVector sqrt x ⬝ᵥ unitVector sqrt y = cosine sqrt x y := by
  rw [cosine, hsqrt.mul (dotProduct_self_nonneg x) (dotProduct_self_nonneg y), dotProduct,
    dotProduct, Finset.sum_div]
  exact Finset.sum_congr rfl fun i _ => div_mul_div_comm _ _ _ _

theorem cosine_self (hsqrt : IsSqrt sqrt) (hx : x ≠ 0) : cosine sqrt x x = 1 := by
  have hpos := dotProduct_self_pos hx
  rw [cosine, hsqrt.mul hpos.le hpos.le, hsqrt.mul_self _ hpos.le, div_self hpos.ne']

/-- Between unit vectors the squared distance is twice one minus the cosine. -/
theorem sqDist_unitVector (hsqrt : IsSqrt sqrt) (hx : x ≠ 0) (hy : y ≠ 0) :
    sqDist (unitVector sqrt x) (unitVector sqrt y) =
      1 - cosine sqrt x y + (1 - cosine sqrt x y) := by
  rw [sqDist_eq]
  simp only [unitVector_dotProduct_unitVector hsqrt, cosine_self hsqrt hx, cosine_self hsqrt hy]
  ring

/-- The inequality of Cauchy and Schwarz. -/
theorem cosine_mul_self_le_one (hsqrt : IsSqrt sqrt) (hx : x ≠ 0) (hy : y ≠ 0) :
    cosine sqrt x y * cosine sqrt x y ≤ 1 := by
  have hprod := mul_pos (dotProduct_self_pos hx) (dotProduct_self_pos hy)
  rw [cosine, div_mul_div_comm, hsqrt.mul_self _ hprod.le, div_le_one hprod]
  have hsum := Finset.sum_mul_sq_le_sq_mul_sq Finset.univ x y
  simpa only [dotProduct, sq] using hsum

theorem cosine_mem_Icc (hsqrt : IsSqrt sqrt) (hx : x ≠ 0) (hy : y ≠ 0) :
    -1 ≤ cosine sqrt x y ∧ cosine sqrt x y ≤ 1 := by
  refine abs_le.mp (abs_le_of_sq_le_sq ?_ zero_le_one)
  rw [one_pow, sq]
  exact cosine_mul_self_le_one hsqrt hx hy

end Unit

/-! ## Lengths -/

section Length

variable [Field K] [LinearOrder K]

/-- The Euclidean length. -/
def vectorLength (sqrt : K → K) (x : ι → K) : K := sqrt (x ⬝ᵥ x)

variable [IsStrictOrderedRing K] {sqrt : K → K} {x y : ι → K}

theorem vectorLength_nonneg (hsqrt : IsSqrt sqrt) (x : ι → K) : 0 ≤ vectorLength sqrt x :=
  hsqrt.nonneg _ (dotProduct_self_nonneg x)

theorem vectorLength_mul_self (hsqrt : IsSqrt sqrt) (x : ι → K) :
    vectorLength sqrt x * vectorLength sqrt x = x ⬝ᵥ x :=
  hsqrt.mul_self _ (dotProduct_self_nonneg x)

omit [LinearOrder K] [IsStrictOrderedRing K] in
theorem vectorLength_neg (sqrt : K → K) (x : ι → K) :
    vectorLength sqrt (-x) = vectorLength sqrt x := by
  rw [vectorLength, vectorLength, neg_dotProduct_neg]

omit [LinearOrder K] [IsStrictOrderedRing K] in
theorem vectorLength_sub_comm (sqrt : K → K) (x y : ι → K) :
    vectorLength sqrt (x - y) = vectorLength sqrt (y - x) := by
  rw [← neg_sub, vectorLength_neg]

/-- The inequality of Cauchy and Schwarz. -/
theorem dotProduct_le_vectorLength_mul_vectorLength (hsqrt : IsSqrt sqrt) (x y : ι → K) :
    x ⬝ᵥ y ≤ vectorLength sqrt x * vectorLength sqrt y := by
  have hprod := mul_nonneg (vectorLength_nonneg hsqrt x) (vectorLength_nonneg hsqrt y)
  refine le_of_sq_le_sq ?_ hprod
  have hsum := Finset.sum_mul_sq_le_sq_mul_sq Finset.univ x y
  calc (x ⬝ᵥ y) ^ 2 ≤ (x ⬝ᵥ x) * (y ⬝ᵥ y) := by simpa only [dotProduct, sq] using hsum
    _ = (vectorLength sqrt x * vectorLength sqrt x) *
        (vectorLength sqrt y * vectorLength sqrt y) := by
      rw [vectorLength_mul_self hsqrt, vectorLength_mul_self hsqrt]
    _ = (vectorLength sqrt x * vectorLength sqrt y) ^ 2 := by ring

/-- The triangle inequality. -/
theorem vectorLength_add_le (hsqrt : IsSqrt sqrt) (x y : ι → K) :
    vectorLength sqrt (x + y) ≤ vectorLength sqrt x + vectorLength sqrt y := by
  have hsum := add_nonneg (vectorLength_nonneg hsqrt x) (vectorLength_nonneg hsqrt y)
  have hdot := dotProduct_le_vectorLength_mul_vectorLength hsqrt x y
  refine le_of_sq_le_sq ?_ hsum
  calc vectorLength sqrt (x + y) ^ 2 = (x + y) ⬝ᵥ (x + y) := by rw [sq, vectorLength_mul_self hsqrt]
    _ = x ⬝ᵥ x + y ⬝ᵥ y + (x ⬝ᵥ y + x ⬝ᵥ y) := by
      rw [add_dotProduct, dotProduct_add, dotProduct_add, dotProduct_comm y x]
      ring
    _ ≤ x ⬝ᵥ x + y ⬝ᵥ y + (vectorLength sqrt x * vectorLength sqrt y +
        vectorLength sqrt x * vectorLength sqrt y) := by
      gcongr
    _ = (vectorLength sqrt x + vectorLength sqrt y) ^ 2 := by
      rw [← vectorLength_mul_self hsqrt x, ← vectorLength_mul_self hsqrt y]
      ring

theorem abs_vectorLength_sub_le (hsqrt : IsSqrt sqrt) (x y : ι → K) :
    |vectorLength sqrt x - vectorLength sqrt y| ≤ vectorLength sqrt (x - y) := by
  have hx := vectorLength_add_le hsqrt (x - y) y
  have hy := vectorLength_add_le hsqrt (-(x - y)) x
  rw [sub_add_cancel] at hx
  rw [vectorLength_neg, neg_sub, sub_add_cancel] at hy
  rw [abs_le]
  constructor <;> linarith

theorem vectorLength_smul (hsqrt : IsSqrt sqrt) (c : K) (x : ι → K) :
    vectorLength sqrt (c • x) = |c| * vectorLength sqrt x := by
  rw [vectorLength, smul_dotProduct, dotProduct_smul, smul_eq_mul, smul_eq_mul, ← mul_assoc,
    hsqrt.mul (mul_self_nonneg c) (dotProduct_self_nonneg x), ← abs_mul_abs_self c,
    hsqrt.self_mul_self (abs_nonneg c), vectorLength]

theorem vectorLength_pos (hsqrt : IsSqrt sqrt) (hx : x ≠ 0) : 0 < vectorLength sqrt x :=
  hsqrt.pos (dotProduct_self_pos hx)

theorem vectorLength_unitVector (hsqrt : IsSqrt sqrt) (hx : x ≠ 0) :
    vectorLength sqrt (unitVector sqrt x) = 1 := by
  rw [vectorLength, unitVector_dotProduct_unitVector hsqrt, cosine_self hsqrt hx, ← mul_one (1 : K),
    hsqrt.self_mul_self zero_le_one, mul_one]

theorem vectorLength_smul_unitVector (hsqrt : IsSqrt sqrt) (hx : x ≠ 0) :
    vectorLength sqrt x • unitVector sqrt x = x :=
  funext fun i => mul_div_cancel₀ (x i) (vectorLength_pos hsqrt hx).ne'

/-- Directions of near vectors are near, the more so the longer these are. -/
theorem vectorLength_unitVector_sub_le (hsqrt : IsSqrt sqrt) (hx : x ≠ 0) (hy : y ≠ 0) :
    vectorLength sqrt x * vectorLength sqrt (unitVector sqrt x - unitVector sqrt y) ≤
      vectorLength sqrt (x - y) + vectorLength sqrt (x - y) := by
  have hscaled : vectorLength sqrt x • (unitVector sqrt x - unitVector sqrt y) =
      (x - y) + (vectorLength sqrt y - vectorLength sqrt x) • unitVector sqrt y := by
    rw [smul_sub, sub_smul, vectorLength_smul_unitVector hsqrt hx,
      vectorLength_smul_unitVector hsqrt hy]
    abel
  have hlengths : |vectorLength sqrt y - vectorLength sqrt x| ≤ vectorLength sqrt (x - y) := by
    rw [abs_sub_comm]
    exact abs_vectorLength_sub_le hsqrt x y
  calc vectorLength sqrt x * vectorLength sqrt (unitVector sqrt x - unitVector sqrt y)
      = vectorLength sqrt (vectorLength sqrt x • (unitVector sqrt x - unitVector sqrt y)) := by
        rw [vectorLength_smul hsqrt, abs_of_nonneg (vectorLength_nonneg hsqrt x)]
    _ ≤ vectorLength sqrt (x - y) +
        vectorLength sqrt ((vectorLength sqrt y - vectorLength sqrt x) • unitVector sqrt y) := by
      rw [hscaled]
      exact vectorLength_add_le hsqrt _ _
    _ ≤ vectorLength sqrt (x - y) + vectorLength sqrt (x - y) := by
      rw [vectorLength_smul hsqrt, vectorLength_unitVector hsqrt hy, mul_one]
      exact add_le_add_right hlengths _

/-- A vector whose coordinates are small. -/
theorem vectorLength_le_of_abs_le (hsqrt : IsSqrt sqrt) {e : K} (he : 0 ≤ e) (h : ∀ i, |x i| ≤ e) :
    vectorLength sqrt x ≤ sqrt (Fintype.card ι) * e := by
  have hroot := hsqrt.nonneg _ (Nat.cast_nonneg (α := K) (Fintype.card ι))
  refine le_of_sq_le_sq ?_ (mul_nonneg hroot he)
  have hsquare : ∀ i, x i * x i ≤ e * e := by
    intro i
    rw [← abs_mul_abs_self (x i)]
    exact mul_self_le_mul_self (abs_nonneg _) (h i)
  calc vectorLength sqrt x ^ 2 = ∑ i, x i * x i := by rw [sq, vectorLength_mul_self hsqrt, dotProduct]
    _ ≤ ∑ _i : ι, e * e := Finset.sum_le_sum fun i _ => hsquare i
    _ = sqrt (Fintype.card ι) * sqrt (Fintype.card ι) * (e * e) := by
      rw [hsqrt.mul_self _ (Nat.cast_nonneg _), Finset.sum_const, Finset.card_univ, nsmul_eq_mul]
    _ = (sqrt (Fintype.card ι) * e) ^ 2 := by ring

end Length

end PDXearch.Lib
