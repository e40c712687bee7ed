import Mathlib.Algebra.Order.Field.Basic
import Mathlib.Algebra.Order.Monoid.WithTop

/-!
# Floating-point values in exact arithmetic

The finite values are the elements of an ordered field; above all of them stand one half of the
greatest representable value and that value itself, which programs use as marks. Sums and
products of marks with finite values are the marks again.
-/

namespace PDXearch.Lib

/-- A finite value, one half of the greatest value, or the greatest value. -/
abbrev ExactFloat (K : Type) : Type := WithTop (WithTop K)

namespace ExactFloat

variable {K : Type}

def ofReal (x : K) : ExactFloat K := ((x : WithTop K) : WithTop (WithTop K))

/-- One half of the greatest value. -/
def halfMax : ExactFloat K := ((⊤ : WithTop K) : WithTop (WithTop K))

/-- The greatest value. -/
def max : ExactFloat K := ⊤

@[simp] theorem ofReal_inj {x y : K} : ofReal x = ofReal y ↔ x = y := by
  simp [ofReal]

@[simp] theorem ofReal_ne_top (x : K) : ofReal x ≠ ⊤ := WithTop.coe_ne_top

theorem eq_ofReal_or_mark (x : ExactFloat K) : (∃ r, x = ofReal r) ∨ x = halfMax ∨ x = ⊤ := by
  rcases x with _ | _ | r
  · exact Or.inr (Or.inr rfl)
  · exact Or.inr (Or.inl rfl)
  · exact Or.inl ⟨r, rfl⟩

section Order

variable [LinearOrder K]

@[simp] theorem ofReal_le {x y : K} : ofReal x ≤ ofReal y ↔ x ≤ y := by
  simp [ofReal]

@[simp] theorem ofReal_lt {x y : K} : ofReal x < ofReal y ↔ x < y := by
  simp [ofReal]

@[simp] theorem ofReal_lt_top (x : K) : ofReal x < ⊤ := WithTop.coe_lt_top _

theorem ofReal_lt_halfMax (x : K) : ofReal x < halfMax :=
  WithTop.coe_lt_coe.mpr (WithTop.coe_lt_top x)

end Order

@[simp] theorem ofReal_add [Add K] (x y : K) : ofReal (x + y) = ofReal x + ofReal y := rfl

/-- Multiplication by a finite value; a mark stays what it is. -/
def scale [Mul K] (x : ExactFloat K) (r : K) : ExactFloat K :=
  WithTop.map (WithTop.map (· * r)) x

@[simp] theorem scale_ofReal [Mul K] (x r : K) : scale (ofReal x) r = ofReal (x * r) := rfl

@[simp] theorem scale_top [Mul K] (r : K) : scale (⊤ : ExactFloat K) r = ⊤ := rfl

@[simp] theorem scale_halfMax [Mul K] (r : K) : scale (halfMax : ExactFloat K) r = halfMax := rfl

theorem scale_one [MulOneClass K] (x : ExactFloat K) : scale x 1 = x := by
  rcases eq_ofReal_or_mark x with ⟨r, rfl⟩ | rfl | rfl <;> simp

variable [Field K] [LinearOrder K]

/-- Nothing finite reaches a threshold that was the greatest value. -/
theorem ne_top_of_scale_le {t : ExactFloat K} {r p : K} (h : scale t r ≤ ofReal p) : t ≠ ⊤ := by
  rintro rfl
  exact absurd h (not_le.mpr (ofReal_lt_top p))

/-- A value that reaches a threshold raised by a factor of at least one reaches the threshold. -/
theorem le_of_scale_le [IsStrictOrderedRing K] {t : ExactFloat K} {r p : K} (hr : 1 ≤ r)
    (hp : 0 ≤ p) (h : scale t r ≤ ofReal p) : t ≤ ofReal p := by
  rcases eq_ofReal_or_mark t with ⟨x, rfl⟩ | rfl | rfl
  · rw [scale_ofReal, ofReal_le] at h
    refine ofReal_le.mpr ?_
    rcases le_total 0 x with hx | hx
    · exact (le_mul_of_one_le_right hx hr).trans h
    · exact hx.trans hp
  · exact h
  · exact h

/-- A value that reaches a threshold reaches any lower one. -/
theorem scale_le_of_le [IsStrictOrderedRing K] {t : ExactFloat K} {r r' p : K} (hr : 0 ≤ r)
    (hrr : r ≤ r') (hp : 0 ≤ p) (h : scale t r' ≤ ofReal p) : scale t r ≤ ofReal p := by
  rcases eq_ofReal_or_mark t with ⟨x, rfl⟩ | rfl | rfl
  · rw [scale_ofReal, ofReal_le] at h ⊢
    rcases le_total 0 x with hx | hx
    · exact (mul_le_mul_of_nonneg_left hrr hx).trans h
    · exact (mul_nonpos_of_nonpos_of_nonneg hx hr).trans hp
  · exact h
  · exact h

theorem scale_mono [IsStrictOrderedRing K] {t t' : ExactFloat K} {r : K} (hr : 0 ≤ r) (h : t' ≤ t) :
    scale t' r ≤ scale t r := by
  have hmono : Monotone fun x : K => x * r := fun _ _ hxy => mul_le_mul_of_nonneg_right hxy hr
  exact hmono.withTop_map.withTop_map h

end ExactFloat

end PDXearch.Lib
