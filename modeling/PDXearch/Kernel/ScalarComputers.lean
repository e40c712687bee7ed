import PDXearch.Common
import PDXearch.Lib.Loops
import Mathlib.Algebra.BigOperators.Intervals
import Mathlib.Algebra.Order.BigOperators.Group.Finset

/-!
# Distance computers

The scalar `DistanceComputer`s for squared Euclidean distance. `Vertical` adds to the distances of
the vectors it visits the terms of a range of vertical dimensions, `Horizontal` computes the terms
of a block of consecutive dimensions of two vectors.

The arrays are read through the layout of a cluster: `readF32` and `readU8` say which cell of the
data holds a dimension of a vector. With them the lemmas `verticalF32_apply` and
`verticalU8_apply` read alike.
-/

namespace PDXearch

open Lib ExactFloat

/-- The vectors that a pass over `nVectors` slots visits: the slots themselves or, under
`SKIP_PRUNED`, the vectors at the first entries of the positions array. -/
def visited (skipPruned : Bool) (pruningPositions : Nat → Nat) (nVectors : Nat) : List Nat :=
  (List.range nVectors).map fun vectorIdx =>
    if skipPruned then pruningPositions vectorIdx else vectorIdx

@[simp] theorem visited_false (pruningPositions : Nat → Nat) (nVectors : Nat) :
    visited false pruningPositions nVectors = List.range nVectors := by
  simp [visited]

@[simp] theorem visited_true (pruningPositions : Nat → Nat) (nVectors : Nat) :
    visited true pruningPositions nVectors = (List.range nVectors).map pruningPositions := by
  simp [visited]

/-! ## F32 -/

section F32

variable {K : Type} [Field K]

/-- `ScalarComputer<L2SQ, F32>::Vertical<SKIP_PRUNED>` -/
def verticalF32 (skipPruned : Bool) (query data : Nat → K)
    (nVectors totalVectors startDimension endDimension : Nat)
    (distances : Nat → ExactFloat K) (pruningPositions : Nat → Nat) : Nat → ExactFloat K :=
  (List.range (endDimension - startDimension)).foldl (fun distances step =>
    let dimensionIdx := startDimension + step
    let offsetToDimensionStart := dimensionIdx * totalVectors
    (visited skipPruned pruningPositions nVectors).foldl (fun distances trueVectorIdx =>
      let toMultiply := query dimensionIdx - data (offsetToDimensionStart + trueVectorIdx)
      Function.update distances trueVectorIdx
        (distances trueVectorIdx + ofReal (toMultiply * toMultiply))) distances) distances

/-- `ScalarComputer<L2SQ, F32>::Horizontal` -/
def horizontalF32 (vector1 vector2 : Nat → K) (numDimensions : Nat) : ExactFloat K :=
  (List.range numDimensions).foldl (fun distance dimensionIdx =>
    let toMultiply := vector1 dimensionIdx - vector2 dimensionIdx
    distance + ofReal (toMultiply * toMultiply)) (ofReal 0)

/-- Dimension `d` of vector `i` in a cluster of `n` vectors with `v` vertical dimensions. -/
def readF32 (v n : Nat) (data : Nat → K) (i d : Nat) : K :=
  if d < v then data (d * n + i)
  else data (v * n + (d - v) / hDimSize * hDimSize * n + i * hDimSize + (d - v) % hDimSize)

/-- One dimension's share of the squared distance. -/
def termF32 (query : Nat → K) (v n : Nat) (data : Nat → K) (i d : Nat) : K :=
  (query d - readF32 v n data i d) ^ 2

theorem verticalF32_apply {skipPruned : Bool} {query data : Nat → K} {m n v a b : Nat}
    (distances : Nat → ExactFloat K) {positions : Nat → Nat} (hb : b ≤ v)
    (hnd : (visited skipPruned positions m).Nodup) (i : Nat) :
    verticalF32 skipPruned query data m n a b distances positions i =
      if i ∈ visited skipPruned positions m then
        distances i + ofReal (∑ d ∈ Finset.Ico a b, termF32 query v n data i d)
      else distances i := by
  have hloop := foldl_range_induction (n := b - a) (s := distances)
    (P := fun t r => ∀ i, r i = if i ∈ visited skipPruned positions m then
      distances i + ofReal (∑ d ∈ Finset.Ico a (a + t), termF32 query v n data i d)
      else distances i)
    (f := fun distances step =>
      (visited skipPruned positions m).foldl (fun distances x =>
        Function.update distances x (distances x + ofReal
          ((query (a + step) - data ((a + step) * n + x)) *
            (query (a + step) - data ((a + step) * n + x))))) distances)
    (fun i => by simp [ofReal, WithTop.coe_zero]) ?_ i
  · rw [verticalF32, hloop]
    rcases le_total a b with hab | hab
    · rw [Nat.add_sub_cancel' hab]
    · rw [Nat.sub_eq_zero_of_le hab, Finset.Ico_eq_empty_of_le hab]
      simp
  · intro t r ht hr i
    have hpass := foldl_update_nodup hnd (fun x y => y + ofReal
      ((query (a + t) - data ((a + t) * n + x)) * (query (a + t) - data ((a + t) * n + x)))) r i
    refine hpass.trans ?_
    rw [hr i]
    split_ifs with hi
    · rw [← Nat.add_assoc, Finset.sum_Ico_succ_top (Nat.le_add_right a t), ofReal_add, ← add_assoc]
      simp only [termF32, readF32, if_pos (show a + t < v by omega), pow_two]
    · rfl

theorem horizontalF32_eq (vector1 vector2 : Nat → K) (n : Nat) :
    horizontalF32 vector1 vector2 n =
      ofReal (∑ d ∈ Finset.range n, (vector1 d - vector2 d) ^ 2) := by
  refine foldl_range_induction
    (P := fun t r => r = ofReal (∑ d ∈ Finset.range t, (vector1 d - vector2 d) ^ 2)) rfl ?_
  rintro t r - rfl
  rw [Finset.sum_range_succ, ofReal_add, pow_two]

end F32

/-! ## U8 -/

/-- `int d = a - b; d * d` -/
def sqDiff (a b : UInt8) : Nat :=
  let d : Int := a.toNat - b.toNat
  (d * d).toNat

/-- `ScalarComputer<L2SQ, U8>::Vertical<SKIP_PRUNED>`: groups of four interleaved dimensions, then
the compact tail. Distances are 32-bit. -/
def verticalU8 (skipPruned : Bool) (query data : Nat → UInt8)
    (nVectors totalVectors startDimension endDimension : Nat)
    (distances : Nat → Nat) (pruningPositions : Nat → Nat) : Nat → Nat :=
  let groups := (endDimension - startDimension) / u8InterleaveSize
  let distances := (List.range groups).foldl (fun distances step =>
    let dimensionIdx := startDimension + u8InterleaveSize * step
    let offsetToDimensionStart := dimensionIdx * totalVectors
    (visited skipPruned pruningPositions nVectors).foldl (fun distances vectorIdx =>
      let da := sqDiff (query dimensionIdx) (data (offsetToDimensionStart + vectorIdx * 4))
      let db := sqDiff (query (dimensionIdx + 1)) (data (offsetToDimensionStart + vectorIdx * 4 + 1))
      let dc := sqDiff (query (dimensionIdx + 2)) (data (offsetToDimensionStart + vectorIdx * 4 + 2))
      let dd := sqDiff (query (dimensionIdx + 3)) (data (offsetToDimensionStart + vectorIdx * 4 + 3))
      Function.update distances vectorIdx
        ((distances vectorIdx + (da + db + dc + dd)) % 2 ^ 32)) distances) distances
  let dimIdx := startDimension + u8InterleaveSize * groups
  if dimIdx < endDimension then
    let remaining := endDimension - dimIdx
    let offset := dimIdx * totalVectors
    (visited skipPruned pruningPositions nVectors).foldl (fun distances vectorIdx =>
      Function.update distances vectorIdx ((List.range remaining).foldl (fun distance k =>
        (distance + sqDiff (query (dimIdx + k)) (data (offset + vectorIdx * remaining + k)))
          % 2 ^ 32) (distances vectorIdx))) distances
  else distances

/-- `ScalarComputer<L2SQ, U8>::Horizontal` -/
def horizontalU8 (vector1 vector2 : Nat → UInt8) (numDimensions : Nat) : Nat :=
  (List.range numDimensions).foldl (fun distance i =>
    (distance + sqDiff (vector1 i) (vector2 i)) % 2 ^ 32) 0

/-- Dimension `d` of vector `i` in a cluster of `n` vectors with `v` vertical dimensions: groups of
four dimensions are interleaved, the last `v % 4` vertical dimensions are compact. -/
def readU8 (v n : Nat) (data : Nat → UInt8) (i d : Nat) : UInt8 :=
  let group := d / u8InterleaveSize * u8InterleaveSize
  if d < v then
    if group + u8InterleaveSize ≤ v then
      data (group * n + i * u8InterleaveSize + d % u8InterleaveSize)
    else data (group * n + i * (v - group) + d % u8InterleaveSize)
  else data (v * n + (d - v) / hDimSize * hDimSize * n + i * hDimSize + (d - v) % hDimSize)

/-- One dimension's share of the squared distance. -/
def termU8 (query : Nat → UInt8) (v n : Nat) (data : Nat → UInt8) (i d : Nat) : Nat :=
  sqDiff (query d) (readU8 v n data i d)

theorem sqDiff_le (a b : UInt8) : sqDiff a b ≤ 255 * 255 := by
  have ha := a.toNat_lt
  have hb := b.toNat_lt
  simp only [sqDiff]
  rw [Int.toNat_le]
  have habs : |(a.toNat : Int) - b.toNat| ≤ 255 := by
    rw [abs_le]
    omega
  calc ((a.toNat : Int) - b.toNat) * (a.toNat - b.toNat)
      = |(a.toNat : Int) - b.toNat| * |(a.toNat : Int) - b.toNat| := (abs_mul_abs_self _).symm
    _ ≤ 255 * 255 := mul_le_mul habs habs (abs_nonneg _) (by decide)
    _ = ((255 * 255 : Nat) : Int) := by norm_num

/-- Adding up modulo `2 ^ 32` is adding up, then reducing. -/
theorem foldl_add_mod (f : Nat → Nat) (x n : Nat) (hx : x < 2 ^ 32) :
    (List.range n).foldl (fun s k => (s + f k) % 2 ^ 32) x =
      (x + ∑ k ∈ Finset.range n, f k) % 2 ^ 32 := by
  refine foldl_range_induction (P := fun t s => s = (x + ∑ k ∈ Finset.range t, f k) % 2 ^ 32) ?_ ?_
  · rw [Finset.sum_range_zero, Nat.add_zero, Nat.mod_eq_of_lt hx]
  · rintro t s - rfl
    rw [Nat.mod_add_mod, Finset.sum_range_succ, ← Nat.add_assoc]

theorem horizontalU8_eq (vector1 vector2 : Nat → UInt8) (n : Nat) :
    horizontalU8 vector1 vector2 n =
      (∑ d ∈ Finset.range n, sqDiff (vector1 d) (vector2 d)) % 2 ^ 32 := by
  rw [horizontalU8, foldl_add_mod _ _ _ (by decide), Nat.zero_add]

/-- A range of dimensions that `Vertical` treats as the layout does: it starts on a group and ends
on a group or with the vertical part. -/
def Aligned (v a b : Nat) : Prop :=
  4 ∣ a ∧ a ≤ b ∧ b ≤ v ∧ (4 ∣ b ∨ b = v)

theorem aligned_zero (v : Nat) : Aligned v 0 0 :=
  ⟨Nat.dvd_zero 4, Nat.le_refl 0, Nat.zero_le v, Or.inl (Nat.dvd_zero 4)⟩

section Groups

variable {query data : Nat → UInt8} {v n : Nat}

/-- The terms of the group that starts at `g`. -/
theorem sum_group {g : Nat} (hg : 4 ∣ g) (hv : g + 4 ≤ v) (i : Nat) :
    ∑ d ∈ Finset.Ico g (g + 4), termU8 query v n data i d =
      sqDiff (query g) (data (g * n + i * 4)) +
        sqDiff (query (g + 1)) (data (g * n + i * 4 + 1)) +
        sqDiff (query (g + 2)) (data (g * n + i * 4 + 2)) +
        sqDiff (query (g + 3)) (data (g * n + i * 4 + 3)) := by
  have hread : ∀ t < 4, readU8 v n data i (g + t) = data (g * n + i * 4 + t) := by
    intro t ht
    have hgroup : (g + t) / 4 * 4 = g := by omega
    have hmod : (g + t) % 4 = t := by omega
    rw [readU8, hgroup, hmod, if_pos (by omega), if_pos hv]
  rw [Finset.sum_Ico_eq_sum_range, Nat.add_sub_cancel_left]
  simp only [Finset.sum_range_succ, Finset.sum_range_zero, termU8, Nat.zero_add]
  rw [hread 0 (by decide), hread 1 (by decide), hread 2 (by decide), hread 3 (by decide)]
  rfl

/-- The terms of the compact tail, which starts at `g`. -/
theorem sum_tail {g : Nat} (hg : 4 ∣ g) (hv : v < g + 4) (i : Nat) :
    ∑ d ∈ Finset.Ico g v, termU8 query v n data i d =
      ∑ k ∈ Finset.range (v - g),
        sqDiff (query (g + k)) (data (g * n + i * (v - g) + k)) := by
  rw [Finset.sum_Ico_eq_sum_range]
  refine Finset.sum_congr rfl fun k hk => ?_
  have hk := Finset.mem_range.mp hk
  have hgroup : (g + k) / 4 * 4 = g := by omega
  have hmod : (g + k) % 4 = k := by omega
  rw [termU8, readU8, hgroup, hmod, if_pos (by omega), if_neg (show ¬ g + 4 ≤ v by omega)]

end Groups

theorem verticalU8_apply {skipPruned : Bool} {query data : Nat → UInt8} {m n v a b : Nat}
    {distances : Nat → Nat} {positions : Nat → Nat} (hab : Aligned v a b)
    (hnd : (visited skipPruned positions m).Nodup) (i : Nat)
    (hi : i ∈ visited skipPruned positions m → distances i < 2 ^ 32) :
    verticalU8 skipPruned query data m n a b distances positions i =
      if i ∈ visited skipPruned positions m then
        (distances i + ∑ d ∈ Finset.Ico a b, termU8 query v n data i d) % 2 ^ 32
      else distances i := by
  obtain ⟨ha, hle, hbv, hb⟩ := hab
  -- the loop over the groups
  have hgroups : ∀ g ≤ (b - a) / 4,
      (List.range g).foldl (fun distances step =>
        (visited skipPruned positions m).foldl (fun distances x =>
          Function.update distances x ((distances x +
            (sqDiff (query (a + 4 * step)) (data ((a + 4 * step) * n + x * 4)) +
              sqDiff (query (a + 4 * step + 1)) (data ((a + 4 * step) * n + x * 4 + 1)) +
              sqDiff (query (a + 4 * step + 2)) (data ((a + 4 * step) * n + x * 4 + 2)) +
              sqDiff (query (a + 4 * step + 3)) (data ((a + 4 * step) * n + x * 4 + 3)))) % 2 ^ 32))
          distances) distances i =
        if i ∈ visited skipPruned positions m then
          (distances i + ∑ d ∈ Finset.Ico a (a + 4 * g), termU8 query v n data i d) % 2 ^ 32
        else distances i := by
    intro g hg
    induction g with
    | zero =>
      rw [Nat.mul_zero, Nat.add_zero, Finset.Ico_self, Finset.sum_empty, Nat.add_zero]
      split_ifs with hmem
      · rw [Nat.mod_eq_of_lt (hi hmem)]
        rfl
      · rfl
    | succ g ih =>
      have hgroup : a + 4 * g + 4 ≤ v := by omega
      rw [List.range_succ, List.foldl_append, List.foldl_cons, List.foldl_nil,
        foldl_update_nodup hnd (fun x y => (y + _) % 2 ^ 32), ih (by omega)]
      split_ifs with hmem
      · rw [Nat.mod_add_mod, Nat.add_assoc, ← sum_group (by omega) hgroup,
          Finset.sum_Ico_consecutive _ (by omega) (by omega)]
        rfl
      · rfl
  simp only [verticalU8, u8InterleaveSize]
  split_ifs with htail hmem hmem
  · rw [foldl_update_nodup hnd (fun x y => (List.range _).foldl _ y), if_pos hmem,
      hgroups _ le_rfl, if_pos hmem, foldl_add_mod _ _ _ (Nat.mod_lt _ (by decide)),
      Nat.mod_add_mod, Nat.add_assoc]
    obtain rfl : b = v := by omega
    rw [← sum_tail (by omega) (by omega), Finset.sum_Ico_consecutive _ (by omega) (by omega)]
  · rw [foldl_update_nodup hnd (fun x y => (List.range _).foldl _ y), if_neg hmem,
      hgroups _ le_rfl, if_neg hmem]
  · rw [hgroups _ le_rfl, if_pos hmem, show a + 4 * ((b - a) / 4) = b by omega]
  · rw [hgroups _ le_rfl, if_neg hmem]

end PDXearch
