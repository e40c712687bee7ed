import Mathlib.Algebra.Order.Floor.Ring
import Mathlib.Algebra.Order.Round
import Mathlib.Algebra.Ring.CharZero
import Mathlib.Data.Int.Log
import Mathlib.Data.Int.Cast.Field
import Mathlib.Tactic.Linarith
import Mathlib.Tactic.Positivity
import Mathlib.Tactic.FieldSimp
import Mathlib.Tactic.Ring

/-!
# Rounding to the nearest float

Floats have `p` significant bits and any exponent. `roundFloat p x` is the float that is nearest to the
positive number `x`, of two the one with the even significand. What is rounded to at most `y` is what
lies below `halfway p y`, in the middle between the greatest float up to `y` and the next one.
-/

namespace PDXearch.Lib

variable {K : Type} [Field K] [LinearOrder K] [IsStrictOrderedRing K] [FloorRing K]

/-! ## Rounding to integers -/

/-- The nearest integer, of two the even one. -/
def roundHalfEven (x : K) : Int :=
  if x < ⌊x⌋ + 1 / 2 then ⌊x⌋
  else if x = ⌊x⌋ + 1 / 2 ∧ Even ⌊x⌋ then ⌊x⌋
  else ⌊x⌋ + 1

theorem roundHalfEven_le_iff {x : K} {z : Int} :
    roundHalfEven x ≤ z ↔ x < z + 1 / 2 ∨ x = z + 1 / 2 ∧ Even z := by
  have hle := Int.floor_le x
  have hlt := Int.lt_floor_add_one x
  rcases lt_trichotomy ⌊x⌋ z with hz | hz | hz
  · have hcast : (⌊x⌋ : K) + 1 ≤ z := by exact_mod_cast hz
    refine iff_of_true ?_ (Or.inl (by linarith))
    unfold roundHalfEven
    split_ifs <;> omega
  · subst hz
    unfold roundHalfEven
    by_cases hbelow : x < ⌊x⌋ + 1 / 2
    · rw [if_pos hbelow]
      exact iff_of_true le_rfl (Or.inl hbelow)
    · by_cases hmiddle : x = ⌊x⌋ + 1 / 2 ∧ Even ⌊x⌋
      · rw [if_neg hbelow, if_pos hmiddle]
        exact iff_of_true le_rfl (Or.inr hmiddle)
      · rw [if_neg hbelow, if_neg hmiddle]
        exact iff_of_false (by omega) fun h => h.elim hbelow hmiddle
  · have hcast : (z : K) + 1 ≤ ⌊x⌋ := by exact_mod_cast hz
    refine iff_of_false ?_ ?_
    · unfold roundHalfEven
      split_ifs <;> omega
    · rintro (h | ⟨h, -⟩) <;> linarith

theorem roundHalfEven_le {x : K} {z : Int} (h : x ≤ z) : roundHalfEven x ≤ z :=
  roundHalfEven_le_iff.mpr (Or.inl (by linarith))

theorem le_roundHalfEven {x : K} {z : Int} (h : (z : K) ≤ x) : z ≤ roundHalfEven x := by
  by_contra hlt
  have hbelow := roundHalfEven_le_iff.mp (Int.le_sub_one_of_lt (not_le.mp hlt))
  push_cast at hbelow
  rcases hbelow with hbelow | ⟨hbelow, -⟩ <;> linarith

/-! ## Rounding to floats -/

/-- The distance of `x`'s neighbouring floats. -/
def spacing (p : Nat) (x : K) : K := 2 ^ (Int.log 2 x + 1 - p)

def roundFloat (p : Nat) (x : K) : K := roundHalfEven (x / spacing p x) * spacing p x

/-- Halfway from the greatest float that is not above `y` to the next one. -/
def halfway (p : Nat) (y : K) : K := (⌊y / spacing p y⌋ + 1 / 2) * spacing p y

/-- The float that `x` is rounded to is above `y`. -/
def RoundsAbove (p : Nat) (y x : K) : Prop :=
  halfway p y < x ∨ x = halfway p y ∧ ¬ Even ⌊y / spacing p y⌋

omit [FloorRing K] in
theorem zpow_two_pos (e : Int) : (0 : K) < 2 ^ e := zpow_pos two_pos e

theorem spacing_pos (p : Nat) (x : K) : 0 < spacing p x := zpow_two_pos _

omit [IsStrictOrderedRing K] in
theorem pow_mul_spacing (p : Nat) (x : K) : 2 ^ p * spacing p x = 2 ^ (Int.log 2 x + 1) := by
  rw [spacing, ← zpow_natCast, ← zpow_add₀ two_ne_zero]
  congr 1
  ring

omit [IsStrictOrderedRing K] in
theorem pow_pred_mul_spacing {p : Nat} (hp : 0 < p) (x : K) :
    2 ^ (p - 1) * spacing p x = 2 ^ Int.log 2 x := by
  rw [spacing, ← zpow_natCast, ← zpow_add₀ two_ne_zero, Int.natCast_pred_of_pos hp]
  congr 1
  ring

/-- The significand has `p` bits. -/
theorem pow_le_significand {p : Nat} (hp : 0 < p) {x : K} (hx : 0 < x) :
    2 ^ (p - 1) ≤ x / spacing p x := by
  rw [le_div_iff₀ (spacing_pos p x), pow_pred_mul_spacing hp]
  exact Int.zpow_log_le_self one_lt_two hx

theorem significand_lt_pow (p : Nat) (x : K) : x / spacing p x < 2 ^ p := by
  rw [div_lt_iff₀ (spacing_pos p x), pow_mul_spacing]
  exact Int.lt_zpow_succ_log_self one_lt_two x

theorem roundHalfEven_significand_le (p : Nat) (x : K) :
    roundHalfEven (x / spacing p x) ≤ 2 ^ p := by
  refine roundHalfEven_le ?_
  push_cast
  exact (significand_lt_pow p x).le

theorem roundFloat_le_zpow (p : Nat) (x : K) : roundFloat p x ≤ 2 ^ (Int.log 2 x + 1) := by
  have hcast : (roundHalfEven (x / spacing p x) : K) ≤ 2 ^ p := by
    exact_mod_cast roundHalfEven_significand_le p x
  rw [← pow_mul_spacing p]
  exact mul_le_mul_of_nonneg_right hcast (spacing_pos p x).le

theorem zpow_log_le_roundFloat {p : Nat} (hp : 0 < p) {x : K} (hx : 0 < x) :
    2 ^ Int.log 2 x ≤ roundFloat p x := by
  have hsignificand : 2 ^ (p - 1) ≤ roundHalfEven (x / spacing p x) := by
    refine le_roundHalfEven ?_
    push_cast
    exact pow_le_significand hp hx
  have hcast : (2 : K) ^ (p - 1) ≤ roundHalfEven (x / spacing p x) := by exact_mod_cast hsignificand
  rw [← pow_pred_mul_spacing hp]
  exact mul_le_mul_of_nonneg_right hcast (spacing_pos p x).le

theorem halfway_lt_zpow (p : Nat) (y : K) : halfway p y < 2 ^ (Int.log 2 y + 1) := by
  have hfloor : ⌊y / spacing p y⌋ < 2 ^ p := by
    refine Int.floor_lt.mpr ?_
    push_cast
    exact significand_lt_pow p y
  have hcast : (⌊y / spacing p y⌋ : K) + 1 ≤ 2 ^ p := by exact_mod_cast hfloor
  rw [← pow_mul_spacing p]
  exact mul_lt_mul_of_pos_right (by linarith) (spacing_pos p y)

theorem zpow_log_lt_halfway {p : Nat} (hp : 0 < p) {y : K} (hy : 0 < y) :
    2 ^ Int.log 2 y < halfway p y := by
  have hfloor : 2 ^ (p - 1) ≤ ⌊y / spacing p y⌋ := by
    refine Int.le_floor.mpr ?_
    push_cast
    exact pow_le_significand hp hy
  have hcast : (2 : K) ^ (p - 1) ≤ ⌊y / spacing p y⌋ := by exact_mod_cast hfloor
  rw [← pow_pred_mul_spacing hp]
  exact mul_lt_mul_of_pos_right (by linarith) (spacing_pos p y)

/-- A number is rounded to at most `y` if it lies below the point halfway to the next float, or there
and the significand is even. -/
theorem roundFloat_le_iff {p : Nat} (hp : 0 < p) {x y : K} (hx : 0 < x) (hy : 0 < y) :
    roundFloat p x ≤ y ↔ x < halfway p y ∨ x = halfway p y ∧ Even ⌊y / spacing p y⌋ := by
  rcases lt_trichotomy (Int.log 2 x) (Int.log 2 y) with hlog | hlog | hlog
  · -- the binade of `x` ends before `y`
    have hbinade : (2 : K) ^ (Int.log 2 x + 1) ≤ 2 ^ Int.log 2 y :=
      zpow_le_zpow_right₀ one_le_two (by omega)
    have hy' : (2 : K) ^ Int.log 2 y ≤ y := Int.zpow_log_le_self one_lt_two hy
    have hx' : x < 2 ^ (Int.log 2 x + 1) := Int.lt_zpow_succ_log_self one_lt_two x
    refine iff_of_true (((roundFloat_le_zpow p x).trans hbinade).trans hy') (Or.inl ?_)
    exact (hx'.trans_le hbinade).trans (zpow_log_lt_halfway hp hy)
  · -- both are rounded on the same grid
    have hspacing : spacing p x = spacing p y := by rw [spacing, spacing, hlog]
    have hpos := spacing_pos p y
    rw [roundFloat, hspacing, ← le_div_iff₀ hpos, ← Int.le_floor, roundHalfEven_le_iff,
      div_lt_iff₀ hpos, div_eq_iff hpos.ne']
    rfl
  · -- the binade of `x` begins after `y`
    have hbinade : (2 : K) ^ (Int.log 2 y + 1) ≤ 2 ^ Int.log 2 x :=
      zpow_le_zpow_right₀ one_le_two (by omega)
    have hy' : y < 2 ^ (Int.log 2 y + 1) := Int.lt_zpow_succ_log_self one_lt_two y
    have hx' : (2 : K) ^ Int.log 2 x ≤ x := Int.zpow_log_le_self one_lt_two hx
    have hmiddle : halfway p y < x := (halfway_lt_zpow p y).trans_le (hbinade.trans hx')
    refine iff_of_false (not_le.mpr ?_) ?_
    · exact (hy'.trans_le hbinade).trans_le (zpow_log_le_roundFloat hp hx)
    · rintro (h | ⟨h, -⟩)
      · exact lt_asymm hmiddle h
      · exact hmiddle.ne' h

theorem roundsAbove_iff {p : Nat} (hp : 0 < p) {x y : K} (hx : 0 < x) (hy : 0 < y) :
    RoundsAbove p y x ↔ y < roundFloat p x := by
  rw [← not_le, roundFloat_le_iff hp hx hy, RoundsAbove, not_or, not_lt, not_and]
  constructor
  · rintro (h | ⟨h, hodd⟩)
    · exact ⟨h.le, fun heq => absurd heq h.ne'⟩
    · exact ⟨h.ge, fun _ => hodd⟩
  · rintro ⟨hle, hodd⟩
    rcases hle.lt_or_eq with h | h
    · exact Or.inl h
    · exact Or.inr ⟨h.symm, hodd h.symm⟩

/-! ## What is a float -/

theorem roundFloat_pos {p : Nat} (hp : 0 < p) {x : K} (hx : 0 < x) : 0 < roundFloat p x :=
  (zpow_two_pos _).trans_le (zpow_log_le_roundFloat hp hx)

/-- A float is no odd multiple of a power of two with more than `p` bits. -/
theorem roundFloat_ne_of_odd {p : Nat} {x : K} {c e : Int} (hodd : Odd c) (hc : 2 ^ p < c) :
    roundFloat p x ≠ c * 2 ^ e := by
  intro h
  have hle := roundHalfEven_significand_le p x
  set X := roundHalfEven (x / spacing p x)
  set a : Int := Int.log 2 x + 1 - p
  change (X : K) * 2 ^ a = c * 2 ^ e at h
  rcases le_or_gt a e with hae | hae
  · -- then the significand is a multiple of `c`
    obtain ⟨m, hm⟩ := Int.eq_ofNat_of_zero_le (Int.sub_nonneg.mpr hae)
    have hX : X = c * 2 ^ m := by
      have hcast : (X : K) = c * 2 ^ (e - a) := by
        rw [zpow_sub₀ two_ne_zero, ← mul_div_assoc, ← h, mul_div_cancel_right₀ _ (zpow_two_pos a).ne']
      rw [hm, zpow_natCast] at hcast
      exact_mod_cast hcast
    have hpow : (1 : Int) ≤ 2 ^ m := one_le_pow₀ (by decide)
    have hcpos : 0 < c := (pow_pos (by decide) p).trans hc
    rw [hX] at hle
    exact absurd (hc.trans_le (le_mul_of_one_le_right hcpos.le hpow)) (not_lt.mpr hle)
  · -- then `c` is even
    obtain ⟨m, hm⟩ := Int.eq_ofNat_of_zero_le (Int.sub_nonneg.mpr hae.le)
    have hX : c = X * 2 ^ m := by
      have hcast : (c : K) = X * 2 ^ (a - e) := by
        rw [zpow_sub₀ two_ne_zero, ← mul_div_assoc, h, mul_div_cancel_right₀ _ (zpow_two_pos e).ne']
      rw [hm, zpow_natCast] at hcast
      exact_mod_cast hcast
    have heven : Even c := by
      rw [hX]
      exact (even_two.pow_of_ne_zero (by omega)).mul_left X
    exact (Int.not_even_iff_odd.mpr hodd) heven

omit [IsStrictOrderedRing K] in
/-- Halfway between floats of `p` bits is an odd multiple of a power of two with one bit more. -/
theorem halfway_eq_odd (p : Nat) (y : K) :
    halfway p y = ((2 * ⌊y / spacing p y⌋ + 1 : Int) : K) * 2 ^ (Int.log 2 y - p) := by
  have hspacing : spacing p y = 2 * 2 ^ (Int.log 2 y - p) := by
    rw [spacing, ← zpow_one_add₀ two_ne_zero]
    congr 1
    ring
  rw [halfway]
  generalize ⌊y / spacing p y⌋ = z
  rw [hspacing]
  push_cast
  ring

/-- A quotient halfway between two floats would make the dividend a number of more than `p` bits. -/
theorem roundFloat_ne_mul_halfway {p : Nat} (hp : 0 < p) {c : Int} (hodd : Odd c) (hc : 0 < c)
    (e : Int) {y : K} (hy : 0 < y) (x : K) : roundFloat p x ≠ c * 2 ^ e * halfway p y := by
  have hsignificand := pow_le_significand hp hy
  have hfloor : 2 ^ (p - 1) ≤ ⌊y / spacing p y⌋ := by
    refine Int.le_floor.mpr ?_
    push_cast
    exact hsignificand
  rw [halfway_eq_odd]
  generalize ⌊y / spacing p y⌋ = z at hfloor
  have hproduct : (c : K) * 2 ^ e * (((2 * z + 1 : Int) : K) * 2 ^ (Int.log 2 y - p)) =
      ((c * (2 * z + 1) : Int) : K) * 2 ^ (e + (Int.log 2 y - p)) := by
    rw [zpow_add₀ two_ne_zero]
    push_cast
    ring
  rw [hproduct]
  refine roundFloat_ne_of_odd (hodd.mul (odd_two_mul_add_one z)) ?_
  have hpow : (2 : Int) ^ p = 2 * 2 ^ (p - 1) := by
    rw [← pow_succ', Nat.sub_add_cancel hp]
  have hone : 2 ^ p < 2 * z + 1 := by omega
  exact hone.trans_le (le_mul_of_one_le_left (by linarith [pow_pos (two_pos : (0 : Int) < 2) p]) hc)

/-- Dividing a float by a number with an odd significand and rounding again: there are no ties. -/
theorem roundFloat_div_le_iff {p : Nat} (hp : 0 < p) {c : Int} (hodd : Odd c) (hc : 0 < c) (e : Int)
    {x y : K} (hx : 0 < x) (hy : 0 < y) :
    roundFloat p (roundFloat p x / (c * 2 ^ e)) ≤ y ↔
      roundFloat p x ≤ c * 2 ^ e * halfway p y := by
  have hdivisor : (0 : K) < c * 2 ^ e := mul_pos (Int.cast_pos.mpr hc) (zpow_two_pos e)
  have hpos : 0 < roundFloat p x :=
    (zpow_two_pos _).trans_le (zpow_log_le_roundFloat hp hx)
  rw [roundFloat_le_iff hp (div_pos hpos hdivisor) hy, div_lt_iff₀ hdivisor, div_eq_iff hdivisor.ne',
    mul_comm (halfway _ _)]
  constructor
  · rintro (h | ⟨h, -⟩)
    · exact h.le
    · exact h.le
  · intro h
    exact Or.inl (h.lt_of_ne (roundFloat_ne_mul_halfway hp hodd hc e hy x))

/-- Positive integers of at most `p` bits are floats. -/
theorem exists_natCast_eq_mul_spacing {p m : Nat} (hm : 0 < m) (hlt : m < 2 ^ p) :
    ∃ z : Int, (m : K) = z * spacing p (m : K) := by
  have hlog : Nat.log 2 m < p := Nat.log_lt_of_lt_pow hm.ne' hlt
  refine ⟨m * 2 ^ (p - 1 - Nat.log 2 m), ?_⟩
  rw [spacing, Int.log_natCast]
  push_cast
  rw [mul_assoc, ← zpow_natCast, ← zpow_add₀ two_ne_zero]
  have hexp : ((p - 1 - Nat.log 2 m : Nat) : Int) + ((Nat.log 2 m : Int) + 1 - p) = 0 := by omega
  rw [hexp, zpow_zero, mul_one]

/-- Above a float the next one is one spacing away. -/
theorem halfway_of_eq {p : Nat} {y : K} {z : Int} (h : y = z * spacing p y) :
    halfway p y = y + spacing p y / 2 := by
  have hsignificand : y / spacing p y = z := by
    rw [div_eq_iff (spacing_pos p y).ne']
    exact h
  rw [halfway, hsignificand, Int.floor_intCast]
  calc (z + 1 / 2) * spacing p y = z * spacing p y + spacing p y / 2 := by ring
    _ = y + spacing p y / 2 := by rw [← h]

theorem roundHalfEven_intCast (z : Int) : roundHalfEven (z : K) = z :=
  le_antisymm (roundHalfEven_le le_rfl) (le_roundHalfEven le_rfl)

/-- Floats are not changed. -/
theorem roundFloat_of_eq {p : Nat} {x : K} {z : Int} (h : x = z * spacing p x) :
    roundFloat p x = x := by
  have hsignificand : x / spacing p x = z := by
    rw [div_eq_iff (spacing_pos p x).ne']
    exact h
  rw [roundFloat, hsignificand, roundHalfEven_intCast, ← h]

theorem log_mul_zpow {x : K} (hx : 0 < x) (e : Int) : Int.log 2 (x * 2 ^ e) = Int.log 2 x + e := by
  have hpos : 0 < x * 2 ^ e := mul_pos hx (zpow_two_pos e)
  refine eq_of_forall_le_iff fun z => ?_
  rw [← Int.zpow_le_iff_le_log one_lt_two hpos, ← sub_le_iff_le_add,
    ← Int.zpow_le_iff_le_log one_lt_two hx, Nat.cast_ofNat, zpow_sub₀ two_ne_zero,
    div_le_iff₀ (zpow_two_pos e)]

/-- A number of at most `p` bits times a power of two is a float. -/
theorem roundFloat_natCast_mul_zpow {p m : Nat} (hm : 0 < m) (hlt : m < 2 ^ p) (e : Int) :
    roundFloat p ((m : K) * 2 ^ e) = m * 2 ^ e := by
  obtain ⟨z, hz⟩ := exists_natCast_eq_mul_spacing (K := K) hm hlt
  have hspacing : spacing p ((m : K) * 2 ^ e) = spacing p (m : K) * 2 ^ e := by
    rw [spacing, spacing, log_mul_zpow (Nat.cast_pos.mpr hm), ← zpow_add₀ two_ne_zero]
    congr 1
    ring
  refine roundFloat_of_eq (z := z) ?_
  rw [hspacing, ← mul_assoc, ← hz]

/-- From one float to the next, the spacing and the significand below are the same. -/
theorem significand_of_mem {p c : Nat} {e : Int} {y : K} (hlo : 2 ^ (p - 1) ≤ c) (hhi : c < 2 ^ p)
    (hy : c * 2 ^ e ≤ y) (hy' : y < (c + 1) * 2 ^ e) :
    spacing p y = 2 ^ e ∧ ⌊y / spacing p y⌋ = c := by
  have hc : 0 < c := (pow_pos two_pos _).trans_le hlo
  have hpos : 0 < y := (mul_pos (Nat.cast_pos.mpr hc) (zpow_two_pos e)).trans_le hy
  have hp : 0 < p := Nat.pos_of_ne_zero fun h => by simp [h] at hhi hlo; omega
  have hlog : Int.log 2 y = p - 1 + e := by
    refine le_antisymm ?_ ?_
    · rw [← Int.lt_add_one_iff, ← Int.lt_zpow_iff_log_lt one_lt_two hpos]
      have hcast : (c : K) + 1 ≤ 2 ^ p := by exact_mod_cast Nat.succ_le_of_lt hhi
      calc y < (c + 1) * 2 ^ e := hy'
        _ ≤ 2 ^ p * 2 ^ e := mul_le_mul_of_nonneg_right hcast (zpow_two_pos e).le
        _ = ((2 : Nat) : K) ^ ((p : Int) - 1 + e + 1) := by
          rw [Nat.cast_ofNat, ← zpow_natCast, ← zpow_add₀ two_ne_zero]
          congr 1
          ring
    · rw [← Int.zpow_le_iff_le_log one_lt_two hpos]
      have hcast : (2 : K) ^ (p - 1) ≤ c := by exact_mod_cast hlo
      calc ((2 : Nat) : K) ^ ((p : Int) - 1 + e) = 2 ^ (p - 1) * 2 ^ e := by
            rw [Nat.cast_ofNat, ← zpow_natCast, ← zpow_add₀ two_ne_zero,
              Int.natCast_pred_of_pos hp]
        _ ≤ c * 2 ^ e := mul_le_mul_of_nonneg_right hcast (zpow_two_pos e).le
        _ ≤ y := hy
  have hspacing : spacing p y = 2 ^ e := by
    rw [spacing, hlog]
    congr 1
    ring
  refine ⟨hspacing, ?_⟩
  rw [hspacing, Int.floor_eq_iff, le_div_iff₀ (zpow_two_pos e), div_lt_iff₀ (zpow_two_pos e)]
  exact ⟨by exact_mod_cast hy, by exact_mod_cast hy'⟩

/-! ## Order -/

theorem roundFloat_mono {p : Nat} (hp : 0 < p) {x y : K} (hx : 0 < x) (hxy : x ≤ y) :
    roundFloat p x ≤ roundFloat p y := by
  have hy := hx.trans_le hxy
  have hpos := roundFloat_pos hp hy
  rw [roundFloat_le_iff hp hx hpos]
  rcases (roundFloat_le_iff hp hy hpos).mp le_rfl with hbelow | ⟨hmiddle, heven⟩
  · exact Or.inl (hxy.trans_lt hbelow)
  · rcases hxy.lt_or_eq with hlt | rfl
    · exact Or.inl (hmiddle ▸ hlt)
    · exact Or.inr ⟨hmiddle, heven⟩

/-- Rounding loses at most the last bit. -/
theorem le_roundFloat {p : Nat} (hp : 0 < p) {x : K} (hx : 0 < x) :
    x * (1 - 1 / 2 ^ p) ≤ roundFloat p x := by
  have hpos := spacing_pos p x
  have hround : x / spacing p x - 1 / 2 ≤ roundHalfEven (x / spacing p x) := by
    by_contra hlt
    have hbelow := (roundHalfEven_le_iff (x := x / spacing p x)).mp le_rfl
    rcases hbelow with h | ⟨h, -⟩
    · linarith
    · linarith
  have hspacing : spacing p x / 2 ≤ x * (1 / 2 ^ p) := by
    have hlog := pow_le_significand hp hx
    rw [le_div_iff₀ hpos] at hlog
    have htwice : 2 ^ p * (spacing p x / 2) = 2 ^ (p - 1) * spacing p x := by
      obtain ⟨q, rfl⟩ := Nat.exists_eq_succ_of_ne_zero hp.ne'
      rw [Nat.succ_sub_one, pow_succ]
      ring
    rw [mul_one_div, le_div_iff₀ (pow_pos two_pos p), mul_comm, htwice]
    exact hlog
  calc x * (1 - 1 / 2 ^ p) = x - x * (1 / 2 ^ p) := by ring
    _ ≤ x - spacing p x / 2 := by linarith
    _ = (x / spacing p x - 1 / 2) * spacing p x := by
      rw [sub_mul, div_mul_cancel₀ _ hpos.ne']
      ring
    _ ≤ roundFloat p x := mul_le_mul_of_nonneg_right hround hpos.le

/-! ## Numbers of either sign -/

/-- The nearest float: zero for zero, and the negative numbers reflected. -/
def roundSigned (p : Nat) (x : K) : K :=
  if 0 < x then roundFloat p x else if x < 0 then -roundFloat p (-x) else 0

omit [IsStrictOrderedRing K] in
theorem roundSigned_of_pos (p : Nat) {x : K} (hx : 0 < x) : roundSigned p x = roundFloat p x :=
  if_pos hx

omit [IsStrictOrderedRing K] in
theorem roundSigned_zero (p : Nat) : roundSigned p (0 : K) = 0 := by simp [roundSigned]

theorem roundSigned_neg (p : Nat) (x : K) : roundSigned p (-x) = -roundSigned p x := by
  rcases lt_trichotomy x 0 with hx | rfl | hx
  · rw [roundSigned, roundSigned, if_pos (by linarith), if_neg (by linarith), if_pos hx, neg_neg]
  · rw [neg_zero, roundSigned_zero, neg_zero]
  · rw [roundSigned, roundSigned, if_neg (by linarith), if_pos (by linarith), if_pos hx, neg_neg]

theorem roundSigned_nonneg {p : Nat} (hp : 0 < p) {x : K} (hx : 0 ≤ x) : 0 ≤ roundSigned p x := by
  rcases hx.lt_or_eq with hpos | rfl
  · rw [roundSigned_of_pos p hpos]
    exact (roundFloat_pos hp hpos).le
  · rw [roundSigned_zero]

theorem roundSigned_nonpos {p : Nat} (hp : 0 < p) {x : K} (hx : x ≤ 0) : roundSigned p x ≤ 0 := by
  have h := roundSigned_nonneg hp (neg_nonneg.mpr hx)
  rw [roundSigned_neg] at h
  linarith

theorem roundSigned_mono {p : Nat} (hp : 0 < p) : Monotone (roundSigned p : K → K) := by
  intro x y hxy
  rcases le_or_gt x 0 with hx | hx
  · rcases le_or_gt 0 y with hy | hy
    · exact (roundSigned_nonpos hp hx).trans (roundSigned_nonneg hp hy)
    · -- both are negative
      have h := roundFloat_mono hp (x := -y) (y := -x) (by linarith) (by linarith)
      rw [← roundSigned_of_pos p (show 0 < -y by linarith),
        ← roundSigned_of_pos p (show 0 < -x by linarith), roundSigned_neg, roundSigned_neg] at h
      linarith
  · rw [roundSigned_of_pos p hx, roundSigned_of_pos p (hx.trans_le hxy)]
    exact roundFloat_mono hp hx hxy

/-- Being rounded to at most a positive number is a bound on what is rounded. -/
theorem roundSigned_le_iff {p : Nat} (hp : 0 < p) {x y : K} (hy : 0 < y) :
    roundSigned p x ≤ y ↔ x < halfway p y ∨ x = halfway p y ∧ Even ⌊y / spacing p y⌋ := by
  rcases le_or_gt x 0 with hx | hx
  · have hhalfway := (zpow_two_pos _).trans (zpow_log_lt_halfway hp hy)
    exact iff_of_true ((roundSigned_nonpos hp hx).trans hy.le) (Or.inl (hx.trans_lt hhalfway))
  · rw [roundSigned_of_pos p hx]
    exact roundFloat_le_iff hp hx hy

/-- The bound of two neighbouring floats: what is rounded below the upper one lies below their middle,
or in it if the lower one has the even significand. -/
theorem roundSigned_le_iff_of_mem {p c : Nat} {e : Int} {x y : K} (hlo : 2 ^ (p - 1) ≤ c)
    (hhi : c < 2 ^ p) (hy : c * 2 ^ e ≤ y) (hy' : y < (c + 1) * 2 ^ e) :
    roundSigned p x ≤ y ↔
      x < (c + 1 / 2) * 2 ^ e ∨ x = (c + 1 / 2) * 2 ^ e ∧ Even c := by
  have hc : 0 < c := (pow_pos two_pos _).trans_le hlo
  have hp : 0 < p := Nat.pos_of_ne_zero fun h => by simp [h] at hhi hlo; omega
  have hpos : 0 < y := (mul_pos (Nat.cast_pos.mpr hc) (zpow_two_pos e)).trans_le hy
  obtain ⟨hspacing, hfloor⟩ := significand_of_mem hlo hhi hy hy'
  rw [roundSigned_le_iff hp hpos, halfway, hfloor, hspacing, Int.cast_natCast, Int.even_coe_nat]

end PDXearch.Lib
