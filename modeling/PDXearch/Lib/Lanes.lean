import Mathlib.Data.BitVec
import Mathlib.Algebra.BigOperators.Intervals
import Mathlib.Tactic.Abel
import Mathlib.Tactic.Ring

/-!
# Registers read as lanes

A SIMD register is a bit vector. An instruction reads it as lanes of one width and may write it
as lanes of another: `lane w r i` is lane `i` of `r` at width `w`, lane 0 in the lowest bits, and
`ofLanes` lays lanes end to end. A wide lane is made of the narrow lanes it covers, so what one
instruction writes another may read at its own width.

Memory holds the numbers its words stand for; `loadLanes` and `storeLanes` move a register's worth
of them.

The second half states what the integer instructions used for sums of squared byte differences
compute, AVX2's at any register width, as they work on each 128-bit half alike, then NEON's.
-/

namespace PDXearch.Lib

/-- Lane `i` of a register, read as lanes of `w` bits. -/
def lane (w : Nat) {W : Nat} (r : BitVec W) (i : Nat) : BitVec w :=
  r.extractLsb' (w * i) w

/-- The first `n` lanes end to end. -/
def packLanes (W : Nat) {w : Nat} (f : Nat → BitVec w) : Nat → BitVec W
  | 0 => 0
  | n + 1 => packLanes W f n ||| (f n).setWidth W <<< (w * n)

/-- The register with the given lanes. -/
def ofLanes (W : Nat) {w : Nat} (f : Nat → BitVec w) : BitVec W :=
  packLanes W f (W / w)

section Lanes

variable {w W : Nat}

theorem getLsbD_lane (r : BitVec W) (i : Nat) {k : Nat} (hk : k < w) :
    (lane w r i).getLsbD k = r.getLsbD (w * i + k) := by
  rw [lane, BitVec.getLsbD_extractLsb', decide_eq_true hk, Bool.true_and]

theorem getLsbD_packLanes (f : Nat → BitVec w) (n : Nat) {i k : Nat} (hk : k < w)
    (hW : w * i + k < W) :
    (packLanes W f n).getLsbD (w * i + k) = (decide (i < n) && (f i).getLsbD k) := by
  induction n with
  | zero => simp [packLanes]
  | succ n ih =>
    rw [packLanes, BitVec.getLsbD_or, ih, BitVec.getLsbD_shiftLeft, BitVec.getLsbD_setWidth,
      decide_eq_true hW, Bool.true_and]
    rcases Nat.lt_trichotomy i n with hlt | rfl | hgt
    · -- below the new lane
      have hbelow : w * i + k < w * n :=
        calc w * i + k < w * i + w := Nat.add_lt_add_left hk _
          _ = w * (i + 1) := (Nat.mul_succ w i).symm
          _ ≤ w * n := Nat.mul_le_mul_left w hlt
      rw [decide_eq_true hbelow, decide_eq_true hlt, decide_eq_true (Nat.lt_succ_of_lt hlt)]
      simp
    · -- in the new lane
      rw [decide_eq_false (show ¬ w * i + k < w * i by omega), decide_eq_false (Nat.lt_irrefl i),
        decide_eq_true (Nat.lt_succ_self i), Nat.add_sub_cancel_left,
        decide_eq_true (show k < W by omega)]
      simp
    · -- above it, where the new lane has no bits
      have habove : w * n + w ≤ w * i := by
        rw [← Nat.mul_succ]
        exact Nat.mul_le_mul_left w hgt
      rw [decide_eq_false (show ¬ w * i + k < w * n by omega),
        decide_eq_false (show ¬ i < n by omega), decide_eq_false (show ¬ i < n + 1 by omega),
        BitVec.getLsbD_of_ge (f n) _ (by omega)]
      simp

theorem lane_ofLanes (f : Nat → BitVec w) {i : Nat} (hi : w * (i + 1) ≤ W) :
    lane w (ofLanes W f) i = f i := by
  apply BitVec.eq_of_getLsbD_eq
  intro k hk
  have hbit : w * i + k < W := by
    rw [Nat.mul_succ] at hi
    omega
  have hlane : i < W / w := (Nat.le_div_iff_mul_le (by omega)).mpr (by rwa [Nat.mul_comm])
  rw [getLsbD_lane _ _ hk, ofLanes, getLsbD_packLanes f _ hk hbit, decide_eq_true hlane,
    Bool.true_and]

/-- The narrow lanes of a wide lane. -/
theorem lane_lane (m : Nat) (r : BitVec W) (i : Nat) {j : Nat} (hj : j < m) :
    lane w (lane (w * m) r i) j = lane w r (m * i + j) := by
  apply BitVec.eq_of_getLsbD_eq
  intro k hk
  have hbit : w * j + k < w * m :=
    calc w * j + k < w * j + w := Nat.add_lt_add_left hk _
      _ = w * (j + 1) := (Nat.mul_succ w j).symm
      _ ≤ w * m := Nat.mul_le_mul_left w hj
  rw [getLsbD_lane _ _ hk, getLsbD_lane _ _ hbit, getLsbD_lane _ _ hk, Nat.mul_add, Nat.mul_assoc,
    Nat.add_assoc]

/-- A lane of two narrow ones is the low one and, above it, the high one. -/
theorem lane_add_self (r : BitVec W) (i : Nat) :
    lane (w + w) r i = lane w r (2 * i + 1) ++ lane w r (2 * i) := by
  apply BitVec.eq_of_getLsbD_eq
  intro k hk
  rw [getLsbD_lane _ _ hk, BitVec.getLsbD_append]
  split_ifs with hlow
  · rw [getLsbD_lane _ _ hlow]
    congr 1
    ring
  · rw [getLsbD_lane _ _ (show k - w < w by omega)]
    congr 1
    have hsum : (w + w) * i = w * (2 * i) := by ring
    rw [hsum, Nat.mul_succ]
    omega

@[simp] theorem lane_or (a b : BitVec W) (i : Nat) :
    lane w (a ||| b) i = lane w a i ||| lane w b i :=
  BitVec.extractLsb'_or

@[simp] theorem lane_zero (i : Nat) : lane w (0 : BitVec W) i = 0 := by
  simp [lane]

end Lanes

theorem zero_append {v w : Nat} (x : BitVec w) : (0 : BitVec v) ++ x = x.setWidth (v + w) := by
  apply BitVec.eq_of_toNat_eq
  have hx : x.toNat < 2 ^ (v + w) :=
    Nat.lt_of_lt_of_le x.isLt (Nat.pow_le_pow_right (by decide) (Nat.le_add_left w v))
  simp [BitVec.toNat_append, Nat.mod_eq_of_lt hx]

/-- A 16-bit lane that holds one byte. -/
theorem lane_of_byte {W : Nat} {r : BitVec W} {i : Nat} {x : BitVec 8}
    (hlow : lane 8 r (2 * i) = x) (hhigh : lane 8 r (2 * i + 1) = 0) :
    lane 16 r i = x.setWidth 16 :=
  calc lane 16 r i = lane 8 r (2 * i + 1) ++ lane 8 r (2 * i) := lane_add_self (w := 8) r i
    _ = x.setWidth 16 := by rw [hlow, hhigh, zero_append]

/-! ## Memory -/

/-- A register loaded from `w`-bit words, from index `i` on. -/
def loadLanes (w W : Nat) (p : Nat → Nat) (i : Nat) : BitVec W :=
  ofLanes W fun k => BitVec.ofNat w (p (i + k))

/-- The words of a register stored from index `i` on. -/
def storeLanes (w : Nat) {W : Nat} (p : Nat → Nat) (i : Nat) (r : BitVec W) : Nat → Nat :=
  fun j => if i ≤ j ∧ j < i + W / w then (lane w r (j - i)).toNat else p j

theorem lane_loadLanes {w W : Nat} (p : Nat → Nat) (i : Nat) {k : Nat} (hk : w * (k + 1) ≤ W) :
    lane w (loadLanes w W p i) k = BitVec.ofNat w (p (i + k)) :=
  lane_ofLanes _ hk

/-! ## Squares of bytes -/

/-- The square of a byte as a 32-bit word. -/
def squareByte (d : BitVec 8) : BitVec 32 :=
  d.setWidth 32 * d.setWidth 32

/-- The distance of two bytes. -/
def absDiff (a b : BitVec 8) : BitVec 8 :=
  if a < b then b - a else a - b

theorem toNat_squareByte (d : BitVec 8) : (squareByte d).toNat = d.toNat * d.toNat := by
  have hd : d.toNat ≤ 255 := Nat.le_of_lt_succ d.isLt
  have hprod : d.toNat * d.toNat < 2 ^ 32 :=
    Nat.lt_of_le_of_lt (Nat.mul_le_mul hd hd) (by decide)
  rw [squareByte, BitVec.toNat_mul, BitVec.toNat_setWidth,
    Nat.mod_eq_of_lt (show d.toNat < 2 ^ 32 by omega), Nat.mod_eq_of_lt hprod]

/-- Words of numbers add up to the word of their sum. -/
theorem sum_ofNat (w : Nat) (f : Nat → Nat) (n : Nat) :
    ∑ k ∈ Finset.range n, BitVec.ofNat w (f k) = BitVec.ofNat w (∑ k ∈ Finset.range n, f k) := by
  induction n with
  | zero => rfl
  | succ n ih => rw [Finset.sum_range_succ, Finset.sum_range_succ, ih, BitVec.ofNat_add]

/-- Widening a byte to 16 bits with zeros leaves nothing for the sign to fill. -/
theorem signExtend_setWidth_byte (d : BitVec 8) :
    (d.setWidth 16).signExtend 32 = d.setWidth 32 := by
  have hsign : (d.setWidth 16).msb = false := by simp [BitVec.msb_setWidth]
  rw [BitVec.signExtend_eq_setWidth_of_msb_false hsign, BitVec.setWidth_setWidth (by decide)]

/-! ## AVX2 -/

namespace Avx2

variable {W : Nat}

/-- Every 32-bit lane holds `x`. -/
def set1Epi32 (x : BitVec 32) : BitVec W :=
  ofLanes W fun _ => x

/-- Unsigned saturating subtraction of bytes. -/
def subsEpu8 (a b : BitVec W) : BitVec W :=
  ofLanes W fun i => if lane 8 a i < lane 8 b i then 0 else lane 8 a i - lane 8 b i

/-- The bytes of the low halves of the 128-bit lanes, alternately of `a` and of `b`. -/
def unpackloEpi8 (a b : BitVec W) : BitVec W :=
  ofLanes W fun j => lane 8 (if j % 2 = 0 then a else b) (j / 16 * 16 + j % 16 / 2)

/-- The bytes of the high halves of the 128-bit lanes, alternately of `a` and of `b`. -/
def unpackhiEpi8 (a b : BitVec W) : BitVec W :=
  ofLanes W fun j => lane 8 (if j % 2 = 0 then a else b) (j / 16 * 16 + 8 + j % 16 / 2)

/-- Signed products of 16-bit lanes, added in pairs. -/
def maddEpi16 (a b : BitVec W) : BitVec W :=
  ofLanes W fun j =>
    (lane 16 a (2 * j)).signExtend 32 * (lane 16 b (2 * j)).signExtend 32 +
      (lane 16 a (2 * j + 1)).signExtend 32 * (lane 16 b (2 * j + 1)).signExtend 32

/-- Sums of neighbouring 32-bit lanes; in each 128-bit lane two of `a`, then two of `b`. -/
def haddEpi32 (a b : BitVec W) : BitVec W :=
  ofLanes W fun j =>
    let src := if j % 4 < 2 then a else b
    lane 32 src (j / 4 * 4 + 2 * (j % 2)) + lane 32 src (j / 4 * 4 + 2 * (j % 2) + 1)

/-- Sums of 32-bit lanes. -/
def addEpi32 (a b : BitVec W) : BitVec W :=
  ofLanes W fun j => lane 32 a j + lane 32 b j

/-- The low half of a register. -/
def castsi256Si128 (r : BitVec 256) : BitVec 128 :=
  lane 128 r 0

/-- Half `i` of a register. -/
def extracti128Si256 (r : BitVec 256) (i : Nat) : BitVec 128 :=
  lane 128 r i

/-- The low 32-bit lane. -/
def cvtsi128Si32 (r : BitVec 128) : BitVec 32 :=
  lane 32 r 0

/-- The two saturating subtractions of a pair of bytes together are its distance. -/
theorem lane_or_subsEpu8 (a b : BitVec W) {i : Nat} (hi : 8 * (i + 1) ≤ W) :
    lane 8 (subsEpu8 a b ||| subsEpu8 b a) i = absDiff (lane 8 a i) (lane 8 b i) := by
  rw [lane_or, subsEpu8, subsEpu8, lane_ofLanes _ hi, lane_ofLanes _ hi, absDiff]
  split_ifs with hlt hgt hgt
  · exact absurd (BitVec.lt_trans hlt hgt) (BitVec.lt_irrefl _)
  · exact BitVec.zero_or
  · exact BitVec.or_zero
  · have heq : lane 8 a i = lane 8 b i :=
      BitVec.le_antisymm (BitVec.not_lt.mp hgt) (BitVec.not_lt.mp hlt)
    rw [heq, BitVec.sub_self]
    rfl

/-- A byte unpacked with zero fills its 16-bit lane. -/
theorem lane_unpackloEpi8_zero (d : BitVec W) {i : Nat} (hi : 16 * (i + 1) ≤ W) :
    lane 16 (unpackloEpi8 d 0) i = (lane 8 d (i / 8 * 16 + i % 8)).setWidth 16 := by
  apply lane_of_byte
  · rw [unpackloEpi8, lane_ofLanes _ (by omega), if_pos (by omega)]
    congr 1
    omega
  · rw [unpackloEpi8, lane_ofLanes _ (by omega), if_neg (by omega), lane_zero]

theorem lane_unpackhiEpi8_zero (d : BitVec W) {i : Nat} (hi : 16 * (i + 1) ≤ W) :
    lane 16 (unpackhiEpi8 d 0) i = (lane 8 d (i / 8 * 16 + 8 + i % 8)).setWidth 16 := by
  apply lane_of_byte
  · rw [unpackhiEpi8, lane_ofLanes _ (by omega), if_pos (by omega)]
    congr 1
    omega
  · rw [unpackhiEpi8, lane_ofLanes _ (by omega), if_neg (by omega), lane_zero]

/-- Squaring 16-bit lanes that hold bytes. -/
theorem lane_maddEpi16_self {r : BitVec W} {j : Nat} {x y : BitVec 8} (hj : 32 * (j + 1) ≤ W)
    (hx : lane 16 r (2 * j) = x.setWidth 16) (hy : lane 16 r (2 * j + 1) = y.setWidth 16) :
    lane 32 (maddEpi16 r r) j = squareByte x + squareByte y := by
  rw [maddEpi16, lane_ofLanes _ hj, hx, hy, signExtend_setWidth_byte, signExtend_setWidth_byte]
  rfl

/-- Lane `j` of the squares of the low halves. -/
theorem lane_madd_unpacklo (d : BitVec W) {j : Nat} (hj : 32 * (j + 1) ≤ W) :
    lane 32 (maddEpi16 (unpackloEpi8 d 0) (unpackloEpi8 d 0)) j =
      squareByte (lane 8 d (j / 4 * 16 + 2 * (j % 4))) +
        squareByte (lane 8 d (j / 4 * 16 + 2 * (j % 4) + 1)) := by
  apply lane_maddEpi16_self hj
  · rw [lane_unpackloEpi8_zero d (by omega)]
    congr 2
    omega
  · rw [lane_unpackloEpi8_zero d (by omega)]
    congr 2
    omega

/-- Lane `j` of the squares of the high halves. -/
theorem lane_madd_unpackhi (d : BitVec W) {j : Nat} (hj : 32 * (j + 1) ≤ W) :
    lane 32 (maddEpi16 (unpackhiEpi8 d 0) (unpackhiEpi8 d 0)) j =
      squareByte (lane 8 d (j / 4 * 16 + 8 + 2 * (j % 4))) +
        squareByte (lane 8 d (j / 4 * 16 + 8 + 2 * (j % 4) + 1)) := by
  apply lane_maddEpi16_self hj
  · rw [lane_unpackhiEpi8_zero d (by omega)]
    congr 2
    omega
  · rw [lane_unpackhiEpi8_zero d (by omega)]
    congr 2
    omega

/-- Unpacking, squaring and adding neighbours puts the squares of four consecutive bytes into one
32-bit lane, in the order of the bytes: the halves that unpacking takes apart, adding puts back. -/
theorem lane_hadd_madd (d : BitVec W) {j : Nat} (hj : 128 * (j / 4 + 1) ≤ W) :
    lane 32 (haddEpi32 (maddEpi16 (unpackloEpi8 d 0) (unpackloEpi8 d 0))
      (maddEpi16 (unpackhiEpi8 d 0) (unpackhiEpi8 d 0))) j =
      ∑ k ∈ Finset.range 4, squareByte (lane 8 d (4 * j + k)) := by
  rw [haddEpi32, lane_ofLanes _ (by omega)]
  simp only [Finset.sum_range_succ, Finset.sum_range_zero, zero_add, Nat.add_zero]
  split_ifs with hhalf
  · rw [lane_madd_unpacklo d (by omega), lane_madd_unpacklo d (by omega),
      show (j / 4 * 4 + 2 * (j % 2)) / 4 * 16 + 2 * ((j / 4 * 4 + 2 * (j % 2)) % 4) =
        4 * j by omega,
      show (j / 4 * 4 + 2 * (j % 2) + 1) / 4 * 16 + 2 * ((j / 4 * 4 + 2 * (j % 2) + 1) % 4) =
        4 * j + 2 by omega, ← add_assoc]
  · rw [lane_madd_unpackhi d (by omega), lane_madd_unpackhi d (by omega),
      show (j / 4 * 4 + 2 * (j % 2)) / 4 * 16 + 8 + 2 * ((j / 4 * 4 + 2 * (j % 2)) % 4) =
        4 * j by omega,
      show (j / 4 * 4 + 2 * (j % 2) + 1) / 4 * 16 + 8 + 2 * ((j / 4 * 4 + 2 * (j % 2) + 1) % 4) =
        4 * j + 2 by omega, ← add_assoc]

/-- Unpacking and squaring in two registers puts the square of every byte into one 32-bit lane. -/
theorem sum_lane_madd (d : BitVec 256) :
    ∑ j ∈ Finset.range 8, (lane 32 (maddEpi16 (unpackloEpi8 d 0) (unpackloEpi8 d 0)) j +
      lane 32 (maddEpi16 (unpackhiEpi8 d 0) (unpackhiEpi8 d 0)) j) =
      ∑ k ∈ Finset.range 32, squareByte (lane 8 d k) := by
  have hlane : ∀ j ∈ Finset.range 8,
      lane 32 (maddEpi16 (unpackloEpi8 d 0) (unpackloEpi8 d 0)) j +
        lane 32 (maddEpi16 (unpackhiEpi8 d 0) (unpackhiEpi8 d 0)) j =
      squareByte (lane 8 d (j / 4 * 16 + 2 * (j % 4))) +
        squareByte (lane 8 d (j / 4 * 16 + 2 * (j % 4) + 1)) +
        (squareByte (lane 8 d (j / 4 * 16 + 8 + 2 * (j % 4))) +
          squareByte (lane 8 d (j / 4 * 16 + 8 + 2 * (j % 4) + 1))) := by
    intro j hj
    have hj := Finset.mem_range.mp hj
    rw [lane_madd_unpacklo d (by omega), lane_madd_unpackhi d (by omega)]
  rw [Finset.sum_congr rfl hlane]
  simp only [Finset.sum_range_succ, Finset.sum_range_zero]
  abel

theorem lane_addEpi32 (a b : BitVec W) {j : Nat} (hj : 32 * (j + 1) ≤ W) :
    lane 32 (addEpi32 a b) j = lane 32 a j + lane 32 b j :=
  lane_ofLanes _ hj

/-- Folding the halves of a register and adding neighbours twice sums its eight lanes. -/
theorem cvtsi128Si32_hadd (r : BitVec 256) :
    cvtsi128Si32 (haddEpi32
      (haddEpi32 (addEpi32 (castsi256Si128 r) (extracti128Si256 r 1))
        (addEpi32 (castsi256Si128 r) (extracti128Si256 r 1)))
      (haddEpi32 (addEpi32 (castsi256Si128 r) (extracti128Si256 r 1))
        (addEpi32 (castsi256Si128 r) (extracti128Si256 r 1)))) =
      ∑ j ∈ Finset.range 8, lane 32 r j := by
  have hhadd : ∀ (s : BitVec 128) (j : Nat), j < 2 →
      lane 32 (haddEpi32 s s) j = lane 32 s (2 * j) + lane 32 s (2 * j + 1) := by
    intro s j hj
    rw [haddEpi32, lane_ofLanes _ (by omega), if_pos (by omega),
      show j / 4 * 4 + 2 * (j % 2) = 2 * j by omega]
  have hfold : ∀ j < 4, lane 32 (addEpi32 (castsi256Si128 r) (extracti128Si256 r 1)) j =
      lane 32 r j + lane 32 r (4 + j) := by
    intro j hj
    rw [lane_addEpi32 _ _ (by omega), castsi256Si128, extracti128Si256]
    exact congrArg₂ (· + ·) ((lane_lane 4 r 0 hj).trans (by rw [Nat.mul_zero, Nat.zero_add]))
      (lane_lane 4 r 1 hj)
  rw [cvtsi128Si32, hhadd _ 0 (by decide), hhadd _ _ (by decide), hhadd _ _ (by decide),
    hfold _ (by decide), hfold _ (by decide), hfold _ (by decide), hfold _ (by decide)]
  simp only [Finset.sum_range_succ, Finset.sum_range_zero]
  abel

end Avx2

/-! ## NEON -/

namespace Neon

/-- Every 32-bit lane holds `x`. -/
def vdupqNU32 (x : BitVec 32) : BitVec 128 :=
  ofLanes 128 fun _ => x

/-- Two 64-bit registers as one. -/
def vcombineU8 (low high : BitVec 64) : BitVec 128 :=
  ofLanes 128 fun i => if i < 8 then lane 8 low i else lane 8 high (i - 8)

/-- The bytes of `t` at the given indices, zero for an index past its end. -/
def vqtbl1qU8 (t idx : BitVec 128) : BitVec 128 :=
  ofLanes 128 fun i => if (lane 8 idx i).toNat < 16 then lane 8 t (lane 8 idx i).toNat else 0

/-- Absolute differences of bytes. -/
def vabdqU8 (a b : BitVec 128) : BitVec 128 :=
  ofLanes 128 fun i => absDiff (lane 8 a i) (lane 8 b i)

/-- Adds to each 32-bit lane the dot product of the four bytes it covers. -/
def vdotqU32 (acc a b : BitVec 128) : BitVec 128 :=
  ofLanes 128 fun i => lane 32 acc i +
    ∑ k ∈ Finset.range 4, (lane 8 a (4 * i + k)).setWidth 32 * (lane 8 b (4 * i + k)).setWidth 32

def vgetLowU8 (r : BitVec 128) : BitVec 64 :=
  lane 64 r 0

def vgetHighU8 (r : BitVec 128) : BitVec 64 :=
  lane 64 r 1

/-- Products of bytes as 16-bit lanes. -/
def vmullU8 (a b : BitVec 64) : BitVec 128 :=
  ofLanes 128 fun i => (lane 8 a i).setWidth 16 * (lane 8 b i).setWidth 16

/-- Sums of neighbouring 16-bit lanes as 32-bit lanes. -/
def vpaddlqU16 (a : BitVec 128) : BitVec 128 :=
  ofLanes 128 fun i => (lane 16 a (2 * i)).setWidth 32 + (lane 16 a (2 * i + 1)).setWidth 32

/-- Sums of neighbouring 32-bit lanes of `a`, then of `b`. -/
def vpaddqU32 (a b : BitVec 128) : BitVec 128 :=
  ofLanes 128 fun i =>
    let src := if i < 2 then a else b
    lane 32 src (2 * (i % 2)) + lane 32 src (2 * (i % 2) + 1)

/-- Sums of 32-bit lanes. -/
def vaddqU32 (a b : BitVec 128) : BitVec 128 :=
  ofLanes 128 fun i => lane 32 a i + lane 32 b i

/-- The sum of the 32-bit lanes. -/
def vaddvqU32 (a : BitVec 128) : BitVec 32 :=
  ∑ i ∈ Finset.range 4, lane 32 a i

/-- A byte's square fits its 16-bit lane. -/
theorem setWidth_square (x : BitVec 8) :
    (x.setWidth 16 * x.setWidth 16).setWidth 32 = squareByte x := by
  apply BitVec.eq_of_toNat_eq
  have hx : x.toNat ≤ 255 := Nat.le_of_lt_succ x.isLt
  have hprod : x.toNat * x.toNat < 2 ^ 16 :=
    Nat.lt_of_le_of_lt (Nat.mul_le_mul hx hx) (by decide)
  rw [toNat_squareByte, BitVec.toNat_setWidth, BitVec.toNat_mul, BitVec.toNat_setWidth,
    Nat.mod_eq_of_lt (show x.toNat < 2 ^ 16 by omega), Nat.mod_eq_of_lt hprod,
    Nat.mod_eq_of_lt (by omega)]

/-- With the dot product instruction, a lane gains the squares of its four bytes. -/
theorem lane_vdotqU32_self (acc a : BitVec 128) {i : Nat} (hi : i < 4) :
    lane 32 (vdotqU32 acc a a) i =
      lane 32 acc i + ∑ k ∈ Finset.range 4, squareByte (lane 8 a (4 * i + k)) :=
  lane_ofLanes _ (by omega)

/-- A lane of squares widened and added in pairs. -/
theorem lane_vpaddlqU16_vmullU8 (h : BitVec 64) {i : Nat} (hi : i < 4) :
    lane 32 (vpaddlqU16 (vmullU8 h h)) i =
      squareByte (lane 8 h (2 * i)) + squareByte (lane 8 h (2 * i + 1)) := by
  rw [vpaddlqU16, lane_ofLanes _ (by omega), vmullU8, lane_ofLanes _ (by omega),
    lane_ofLanes _ (by omega), setWidth_square, setWidth_square]

/-- Without it, a lane gains the same four squares. -/
theorem lane_vpaddqU32 (a : BitVec 128) {i : Nat} (hi : i < 4) :
    lane 32 (vpaddqU32 (vpaddlqU16 (vmullU8 (vgetLowU8 a) (vgetLowU8 a)))
      (vpaddlqU16 (vmullU8 (vgetHighU8 a) (vgetHighU8 a)))) i =
      ∑ k ∈ Finset.range 4, squareByte (lane 8 a (4 * i + k)) := by
  have hlow : ∀ k < 8, lane 8 (vgetLowU8 a) k = lane 8 a k := by
    intro k hk
    exact (lane_lane 8 a 0 hk).trans (by rw [Nat.mul_zero, Nat.zero_add])
  have hhigh : ∀ k < 8, lane 8 (vgetHighU8 a) k = lane 8 a (8 + k) := by
    intro k hk
    exact lane_lane 8 a 1 hk
  rw [vpaddqU32, lane_ofLanes _ (by omega)]
  simp only [Finset.sum_range_succ, Finset.sum_range_zero, zero_add, Nat.add_zero]
  split_ifs with hhalf
  · rw [lane_vpaddlqU16_vmullU8 _ (by omega), lane_vpaddlqU16_vmullU8 _ (by omega),
      hlow _ (by omega), hlow _ (by omega), hlow _ (by omega), hlow _ (by omega),
      show 2 * (2 * (i % 2)) = 4 * i by omega, show 2 * (2 * (i % 2) + 1) = 4 * i + 2 by omega,
      ← add_assoc]
  · rw [lane_vpaddlqU16_vmullU8 _ (by omega), lane_vpaddlqU16_vmullU8 _ (by omega),
      hhigh _ (by omega), hhigh _ (by omega), hhigh _ (by omega), hhigh _ (by omega),
      show 8 + 2 * (2 * (i % 2)) = 4 * i by omega,
      show 8 + (2 * (2 * (i % 2)) + 1) = 4 * i + 1 by omega,
      show 8 + 2 * (2 * (i % 2) + 1) = 4 * i + 2 by omega,
      show 8 + (2 * (2 * (i % 2) + 1) + 1) = 4 * i + 3 by omega, ← add_assoc]

end Neon

end PDXearch.Lib
