import PDXearch.Kernel.ScalarComputers
import PDXearch.Lib.Lanes
import Mathlib.Tactic.IntervalCases

/-!
# Vector distance computers

The AVX2 and NEON computers for quantized squared Euclidean distance. Both run the scalar loops
with a vector loop put before the vectors of a group: it takes as many registers of distances as
fit, and the scalar loop goes on where it stops. Under `SKIP_PRUNED` and in the compact tail they
have scalar loops alone. `Horizontal` sums registers of bytes and lets the scalar loop finish.

A step of the vector loop is a scalar pass over the vectors of its register
(`Avx2.verticalStep_eq`, `Neon.verticalStep_eq`), so the two passes over a group are the scalar
one cut in two.
-/

namespace PDXearch

open Lib

/-- The bytes of memory as the numbers they hold. -/
def bytes (p : Nat → UInt8) : Nat → Nat :=
  fun i => (p i).toNat

/-! ## The loops the platforms share -/

/-- A group's four squares for one vector. -/
def groupTerm (query data : Nat → UInt8) (dimensionIdx offsetToDimensionStart vectorIdx : Nat) :
    Nat :=
  let da := sqDiff (query dimensionIdx) (data (offsetToDimensionStart + vectorIdx * 4))
  let db := sqDiff (query (dimensionIdx + 1)) (data (offsetToDimensionStart + vectorIdx * 4 + 1))
  let dc := sqDiff (query (dimensionIdx + 2)) (data (offsetToDimensionStart + vectorIdx * 4 + 2))
  let dd := sqDiff (query (dimensionIdx + 3)) (data (offsetToDimensionStart + vectorIdx * 4 + 3))
  da + db + dc + dd

/-- The scalar loop over the given vectors of a group. -/
def groupPass (query data : Nat → UInt8) (dimensionIdx offsetToDimensionStart : Nat)
    (vectors : List Nat) (distances : Nat → Nat) : Nat → Nat :=
  vectors.foldl (fun distances vectorIdx =>
    Function.update distances vectorIdx ((distances vectorIdx +
      groupTerm query data dimensionIdx offsetToDimensionStart vectorIdx) % 2 ^ 32)) distances

/-- The scalar loops over the dimensions that fill no group. -/
def compactTail (query data : Nat → UInt8) (vectors : List Nat)
    (totalVectors dimIdx endDimension : Nat) (distances : Nat → Nat) : Nat → Nat :=
  if dimIdx < endDimension then
    let remaining := endDimension - dimIdx
    let offset := dimIdx * totalVectors
    vectors.foldl (fun distances vectorIdx =>
      Function.update distances vectorIdx ((List.range remaining).foldl (fun distance k =>
        (distance + sqDiff (query (dimIdx + k)) (data (offset + vectorIdx * remaining + k)))
          % 2 ^ 32) (distances vectorIdx))) distances
  else distances

/-- `Vertical<SKIP_PRUNED>` of a platform whose registers hold `width` distances. `vectorStep`
takes the dimension, the offset of its group and the first of the `width` vectors. -/
def verticalLoops (width : Nat) (vectorStep : Nat → Nat → Nat → (Nat → Nat) → Nat → Nat)
    (skipPruned : Bool) (query data : Nat → UInt8)
    (nVectors totalVectors startDimension endDimension : Nat)
    (distances : Nat → Nat) (pruningPositions : Nat → Nat) : Nat → Nat :=
  let groups := (endDimension - startDimension) / u8InterleaveSize
  let distances := (List.range groups).foldl (fun distances step =>
    let dimensionIdx := startDimension + u8InterleaveSize * step
    let offsetToDimensionStart := dimensionIdx * totalVectors
    -- `if constexpr (!SKIP_PRUNED)`
    let vectorSteps := if skipPruned then 0 else nVectors / width
    let distances := (List.range vectorSteps).foldl (fun distances t =>
      vectorStep dimensionIdx offsetToDimensionStart (width * t) distances) distances
    groupPass query data dimensionIdx offsetToDimensionStart
      ((visited skipPruned pruningPositions nVectors).drop (width * vectorSteps)) distances)
    distances
  compactTail query data (visited skipPruned pruningPositions nVectors) totalVectors
    (startDimension + u8InterleaveSize * groups) endDimension distances

/-- The scalar tail of `Horizontal`, from dimension `i` on. -/
def horizontalTail (vector1 vector2 : Nat → UInt8) (i numDimensions distance : Nat) : Nat :=
  ((List.range numDimensions).drop i).foldl (fun distance i =>
    (distance + sqDiff (vector1 i) (vector2 i)) % 2 ^ 32) distance

/-- The scalar computer in terms of the same loops. -/
theorem verticalU8_eq_groupPass (skipPruned : Bool) (query data : Nat → UInt8)
    (nVectors totalVectors startDimension endDimension : Nat) (distances positions : Nat → Nat) :
    verticalU8 skipPruned query data nVectors totalVectors startDimension endDimension distances
        positions =
      compactTail query data (visited skipPruned positions nVectors) totalVectors
        (startDimension + u8InterleaveSize * ((endDimension - startDimension) / u8InterleaveSize))
        endDimension
        ((List.range ((endDimension - startDimension) / u8InterleaveSize)).foldl
          (fun distances step => groupPass query data (startDimension + u8InterleaveSize * step)
            ((startDimension + u8InterleaveSize * step) * totalVectors)
            (visited skipPruned positions nVectors) distances) distances) :=
  rfl

theorem groupPass_append (query data : Nat → UInt8) (dimensionIdx offset : Nat)
    (vectors rest : List Nat) (distances : Nat → Nat) :
    groupPass query data dimensionIdx offset (vectors ++ rest) distances =
      groupPass query data dimensionIdx offset rest
        (groupPass query data dimensionIdx offset vectors distances) :=
  List.foldl_append

/-- The vectors before the `t`-th register and those in it. -/
theorem range_mul_succ (width t : Nat) :
    List.range (width * (t + 1)) = List.range (width * t) ++ List.range' (width * t) width := by
  rw [Nat.mul_succ, List.range_eq_range', List.range_eq_range', ← List.range'_append_1,
    Nat.zero_add]

/-- If every vector step is a scalar pass over the vectors of its register, the platform leaves
the distances of the scalar computer. -/
theorem verticalLoops_eq {width : Nat} {vectorStep : Nat → Nat → Nat → (Nat → Nat) → Nat → Nat}
    {query data : Nat → UInt8} {startDimension : Nat} (hstart : 4 ∣ startDimension)
    (hstep : ∀ dimensionIdx offset i distances, 4 ∣ dimensionIdx →
      vectorStep dimensionIdx offset i distances =
        groupPass query data dimensionIdx offset (List.range' i width) distances)
    (skipPruned : Bool) (nVectors totalVectors endDimension : Nat)
    (distances positions : Nat → Nat) :
    verticalLoops width vectorStep skipPruned query data nVectors totalVectors startDimension
        endDimension distances positions =
      verticalU8 skipPruned query data nVectors totalVectors startDimension endDimension distances
        positions := by
  have hsteps : ∀ dimensionIdx offset distances t, 4 ∣ dimensionIdx →
      (List.range t).foldl (fun distances t =>
        vectorStep dimensionIdx offset (width * t) distances) distances =
        groupPass query data dimensionIdx offset (List.range (width * t)) distances := by
    intro dimensionIdx offset distances t hdim
    induction t with
    | zero => rfl
    | succ t ih =>
      rw [List.range_succ, List.foldl_append, ih, List.foldl_cons, List.foldl_nil,
        hstep _ _ _ _ hdim, range_mul_succ, groupPass_append]
  rw [verticalU8_eq_groupPass, verticalLoops]
  congr 2
  funext distances step
  have hdim : 4 ∣ startDimension + u8InterleaveSize * step :=
    Nat.dvd_add hstart (Nat.dvd_mul_right _ _)
  cases skipPruned with
  | true => rfl
  | false =>
    simp only [Bool.false_eq_true, if_false, visited_false]
    have hfit : width * (nVectors / width) ≤ nVectors := Nat.mul_div_le nVectors width
    have hcut : List.range nVectors = List.range (width * (nVectors / width)) ++
        (List.range nVectors).drop (width * (nVectors / width)) := by
      conv_lhs => rw [← List.take_append_drop (width * (nVectors / width)) (List.range nVectors)]
      rw [List.take_range, Nat.min_eq_left hfit]
    rw [hsteps _ _ _ _ hdim, ← groupPass_append, ← hcut]

/-- A register that holds the new distances of its vectors, stored, is a scalar pass over them. -/
theorem storeLanes_eq_groupPass {query data : Nat → UInt8} {dimensionIdx offset i width W : Nat}
    {distances : Nat → Nat} {r : BitVec W} (hW : W / 32 = width)
    (hr : ∀ k < width, lane 32 r k = BitVec.ofNat 32 (distances (i + k)) +
      BitVec.ofNat 32 (groupTerm query data dimensionIdx offset (i + k))) :
    storeLanes 32 distances i r =
      groupPass query data dimensionIdx offset (List.range' i width) distances := by
  funext j
  have hpass := foldl_update_nodup (List.nodup_range' (s := i) (n := width)) (fun x y =>
    (y + groupTerm query data dimensionIdx offset x) % 2 ^ 32) distances j
  rw [groupPass, hpass, storeLanes, hW]
  simp only [List.mem_range'_1]
  split_ifs with hj
  · rw [hr _ (by omega), ← BitVec.ofNat_add, BitVec.toNat_ofNat, Nat.add_sub_cancel' hj.1]
  · rfl

/-- A register whose lanes total the squares of the dimensions so far, after a number of steps of
`width` dimensions each. -/
theorem total_foldl_steps {R : Type} (total : R → BitVec 32) {step : R → Nat → R} {r : R}
    {width : Nat} {vector1 vector2 : Nat → UInt8} (hr : total r = 0)
    (hstep : ∀ r i, total (step r i) = total r + BitVec.ofNat 32
      (∑ k ∈ Finset.range width, sqDiff (vector1 (i + k)) (vector2 (i + k)))) (steps : Nat) :
    total ((List.range steps).foldl (fun r t => step r (width * t)) r) =
      BitVec.ofNat 32 (∑ d ∈ Finset.range (width * steps), sqDiff (vector1 d) (vector2 d)) := by
  induction steps with
  | zero => exact hr
  | succ steps ih =>
    rw [List.range_succ, List.foldl_append, List.foldl_cons, List.foldl_nil, hstep, ih,
      ← BitVec.ofNat_add, Nat.mul_succ, Finset.sum_range_add]

/-- The scalar tail finishes what registers have summed up to dimension `i`. -/
theorem horizontalTail_eq {vector1 vector2 : Nat → UInt8} {i numDimensions : Nat}
    (hi : i ≤ numDimensions) :
    horizontalTail vector1 vector2 i numDimensions
        (BitVec.ofNat 32 (∑ d ∈ Finset.range i, sqDiff (vector1 d) (vector2 d))).toNat =
      horizontalU8 vector1 vector2 numDimensions := by
  rw [BitVec.toNat_ofNat, ← horizontalU8_eq, horizontalU8, horizontalU8, horizontalTail,
    ← List.foldl_append]
  congr 1
  conv_rhs => rw [← List.take_append_drop i (List.range numDimensions)]
  rw [List.take_range, Nat.min_eq_left hi]

theorem toNat_absDiff (a b : UInt8) :
    (absDiff (BitVec.ofNat 8 a.toNat) (BitVec.ofNat 8 b.toNat)).toNat =
      ((a.toNat : Int) - b.toNat).natAbs := by
  have ha := a.toNat_lt
  have hb := b.toNat_lt
  rw [absDiff]
  split_ifs with hlt
  · rw [BitVec.lt_def, BitVec.toNat_ofNat, BitVec.toNat_ofNat] at hlt
    rw [BitVec.toNat_sub, BitVec.toNat_ofNat, BitVec.toNat_ofNat]
    omega
  · rw [BitVec.lt_def, BitVec.toNat_ofNat, BitVec.toNat_ofNat] at hlt
    rw [BitVec.toNat_sub, BitVec.toNat_ofNat, BitVec.toNat_ofNat]
    omega

/-- The square of a byte distance is the square the scalar code computes. -/
theorem squareByte_absDiff (a b : UInt8) :
    squareByte (absDiff (BitVec.ofNat 8 a.toNat) (BitVec.ofNat 8 b.toNat)) =
      BitVec.ofNat 32 (sqDiff a b) := by
  apply BitVec.eq_of_toNat_eq
  have hle := sqDiff_le a b
  have hsquare : ((a.toNat : Int) - b.toNat).natAbs * ((a.toNat : Int) - b.toNat).natAbs =
      sqDiff a b := by
    rw [sqDiff, ← Int.natAbs_mul_self]
    rfl
  rw [toNat_squareByte, toNat_absDiff, hsquare, BitVec.toNat_ofNat, Nat.mod_eq_of_lt (by omega)]

/-- The four squares of a vector's group, read from the registers of the query and the data. -/
theorem sum_squareByte_group (query data : Nat → UInt8) (dimensionIdx offset vectorIdx : Nat) :
    ∑ k ∈ Finset.range 4, squareByte (absDiff (BitVec.ofNat 8 (query (dimensionIdx + k)).toNat)
      (BitVec.ofNat 8 (data (offset + vectorIdx * 4 + k)).toNat)) =
      BitVec.ofNat 32 (groupTerm query data dimensionIdx offset vectorIdx) := by
  simp only [squareByte_absDiff, sum_ofNat]
  simp only [Finset.sum_range_succ, Finset.sum_range_zero, Nat.zero_add]
  rfl

theorem lane_loadLanes_bytes {W : Nat} (p : Nat → UInt8) (i : Nat) {k : Nat}
    (hk : 8 * (k + 1) ≤ W) :
    lane 8 (loadLanes 8 W (bytes p) i) k = BitVec.ofNat 8 (p (i + k)).toNat :=
  lane_loadLanes _ i hk

/-! ## AVX2 -/

namespace Avx2

open Lib.Avx2

/-- The vector loop of `SIMDComputer<L2SQ, U8>::Vertical` on the eight vectors from `i` on. -/
def verticalStep (query data : Nat → UInt8) (dimensionIdx offsetToDimensionStart i : Nat)
    (distances : Nat → Nat) : Nat → Nat :=
  -- `query_grouped[dimension_idx / 4]`
  let queryValue : BitVec 32 := loadLanes 8 32 (bytes query) (4 * (dimensionIdx / 4))
  let vec1U8 : BitVec 256 := set1Epi32 queryValue
  let zeros : BitVec 256 := 0
  let res : BitVec 256 := loadLanes 32 256 distances i
  let vec2U8 : BitVec 256 := loadLanes 8 256 (bytes data) (offsetToDimensionStart + i * 4)
  let diff := subsEpu8 vec1U8 vec2U8 ||| subsEpu8 vec2U8 vec1U8
  let lo16 := unpackloEpi8 diff zeros
  let hi16 := unpackhiEpi8 diff zeros
  let sqLo := maddEpi16 lo16 lo16
  let sqHi := maddEpi16 hi16 hi16
  let sums := haddEpi32 sqLo sqHi
  storeLanes 32 distances i (addEpi32 res sums)

/-- `SIMDComputer<L2SQ, U8>::Vertical<SKIP_PRUNED>` -/
def verticalU8 (skipPruned : Bool) (query data : Nat → UInt8)
    (nVectors totalVectors startDimension endDimension : Nat)
    (distances : Nat → Nat) (pruningPositions : Nat → Nat) : Nat → Nat :=
  verticalLoops 8 (verticalStep query data) skipPruned query data nVectors totalVectors
    startDimension endDimension distances pruningPositions

/-- The vector loop of `Horizontal` on the 32 dimensions from `i` on. -/
def horizontalStep (vector1 vector2 : Nat → UInt8) (d2Vec : BitVec 256) (i : Nat) : BitVec 256 :=
  let zeros : BitVec 256 := 0
  let aVec : BitVec 256 := loadLanes 8 256 (bytes vector1) i
  let bVec : BitVec 256 := loadLanes 8 256 (bytes vector2) i
  let diff := subsEpu8 aVec bVec ||| subsEpu8 bVec aVec
  let lo16 := unpackloEpi8 diff zeros
  let hi16 := unpackhiEpi8 diff zeros
  let d2Vec := addEpi32 d2Vec (maddEpi16 lo16 lo16)
  addEpi32 d2Vec (maddEpi16 hi16 hi16)

/-- `SIMDComputer<L2SQ, U8>::Horizontal` -/
def horizontalU8 (vector1 vector2 : Nat → UInt8) (numDimensions : Nat) : Nat :=
  let steps := numDimensions / 32
  let d2Vec := (List.range steps).foldl (fun d2Vec step =>
    horizontalStep vector1 vector2 d2Vec (32 * step)) 0
  let lo := castsi256Si128 d2Vec
  let hi := extracti128Si256 d2Vec 1
  let sum128 := addEpi32 lo hi
  let sum128 := haddEpi32 sum128 sum128
  let sum128 := haddEpi32 sum128 sum128
  horizontalTail vector1 vector2 (32 * steps) numDimensions (cvtsi128Si32 sum128).toNat

/-- A step of the vector loop is a scalar pass over its eight vectors. -/
theorem verticalStep_eq {query data : Nat → UInt8} {dimensionIdx : Nat} (hdim : 4 ∣ dimensionIdx)
    (offset i : Nat) (distances : Nat → Nat) :
    verticalStep query data dimensionIdx offset i distances =
      groupPass query data dimensionIdx offset (List.range' i 8) distances := by
  apply storeLanes_eq_groupPass (by decide)
  intro k hk
  rw [lane_addEpi32 _ _ (by omega), lane_loadLanes _ _ (by omega), lane_hadd_madd _ (by omega),
    ← sum_squareByte_group]
  congr 1
  refine Finset.sum_congr rfl fun t ht => ?_
  have ht := Finset.mem_range.mp ht
  have hquery : lane 8
      (set1Epi32 (loadLanes 8 32 (bytes query) (4 * (dimensionIdx / 4))) : BitVec 256) (4 * k + t) =
      BitVec.ofNat 8 (query (dimensionIdx + t)).toNat := by
    rw [← lane_lane 4 _ k ht, Nat.mul_div_cancel' hdim]
    change lane 8 (lane 32 _ k) t = _
    rw [set1Epi32, lane_ofLanes _ (by omega), lane_loadLanes_bytes _ _ (by omega)]
  rw [lane_or_subsEpu8 _ _ (by omega), hquery, lane_loadLanes_bytes _ _ (by omega),
    show offset + i * 4 + (4 * k + t) = offset + (i + k) * 4 + t by ring]

/-- A step of `Horizontal` adds its 32 squares to the sum of the lanes. -/
theorem sum_horizontalStep (vector1 vector2 : Nat → UInt8) (d2Vec : BitVec 256) (i : Nat) :
    ∑ j ∈ Finset.range 8, lane 32 (horizontalStep vector1 vector2 d2Vec i) j =
      ∑ j ∈ Finset.range 8, lane 32 d2Vec j +
        BitVec.ofNat 32 (∑ k ∈ Finset.range 32, sqDiff (vector1 (i + k)) (vector2 (i + k))) := by
  set aVec : BitVec 256 := loadLanes 8 256 (bytes vector1) i with haVec
  set bVec : BitVec 256 := loadLanes 8 256 (bytes vector2) i with hbVec
  have hbytes : ∀ k ∈ Finset.range 32,
      squareByte (lane 8 (subsEpu8 aVec bVec ||| subsEpu8 bVec aVec) k) =
        BitVec.ofNat 32 (sqDiff (vector1 (i + k)) (vector2 (i + k))) := by
    intro k hk
    have hk := Finset.mem_range.mp hk
    rw [lane_or_subsEpu8 _ _ (by omega), haVec, hbVec, lane_loadLanes_bytes _ _ (by omega),
      lane_loadLanes_bytes _ _ (by omega), squareByte_absDiff]
  rw [← sum_ofNat, ← Finset.sum_congr rfl hbytes, ← sum_lane_madd, ← Finset.sum_add_distrib]
  refine Finset.sum_congr rfl fun j hj => ?_
  have hj := Finset.mem_range.mp hj
  rw [horizontalStep, lane_addEpi32 _ _ (by omega), lane_addEpi32 _ _ (by omega), add_assoc]

theorem horizontalU8_eq (vector1 vector2 : Nat → UInt8) (numDimensions : Nat) :
    horizontalU8 vector1 vector2 numDimensions =
      PDXearch.horizontalU8 vector1 vector2 numDimensions := by
  have hzero : ∑ j ∈ Finset.range 8, lane 32 (0 : BitVec 256) j = 0 :=
    Finset.sum_eq_zero fun j _ => lane_zero j
  rw [horizontalU8, cvtsi128Si32_hadd,
    total_foldl_steps (fun d2Vec : BitVec 256 => ∑ j ∈ Finset.range 8, lane 32 d2Vec j) hzero
      (sum_horizontalStep vector1 vector2)]
  exact horizontalTail_eq (Nat.mul_div_le numDimensions 32)

end Avx2

/-! ## NEON -/

namespace Neon

open Lib.Neon

/-- `squared_dot_accumulate`; `dotProd` says whether the platform has `__ARM_FEATURE_DOTPROD`. -/
def squaredDotAccumulate (dotProd : Bool) (acc a : BitVec 128) : BitVec 128 :=
  if dotProd then vdotqU32 acc a a
  else
    let sqLo := vmullU8 (vgetLowU8 a) (vgetLowU8 a)
    let sqHi := vmullU8 (vgetHighU8 a) (vgetHighU8 a)
    let partialLo := vpaddlqU16 sqLo
    let partialHi := vpaddlqU16 sqHi
    vaddqU32 acc (vpaddqU32 partialLo partialHi)

/-- The table index that repeats the first four bytes. -/
def idx : BitVec 128 :=
  ofLanes 128 fun k => BitVec.ofNat 8 ([0, 1, 2, 3, 0, 1, 2, 3, 0, 1, 2, 3, 0, 1, 2, 3].getD k 0)

/-- The vector loop of `SIMDComputer<L2SQ, U8>::Vertical` on the four vectors from `i` on. The
load of `vals` takes eight bytes of the query, of which `idx` picks the first four. -/
def verticalStep (dotProd : Bool) (query data : Nat → UInt8)
    (dimensionIdx offsetToDimensionStart i : Nat) (distances : Nat → Nat) : Nat → Nat :=
  let vals : BitVec 64 := loadLanes 8 64 (bytes query) dimensionIdx
  let vec1U8 := vqtbl1qU8 (vcombineU8 vals vals) idx
  let res : BitVec 128 := loadLanes 32 128 distances i
  let vec2U8 : BitVec 128 := loadLanes 8 128 (bytes data) (offsetToDimensionStart + i * 4)
  let diffU8 := vabdqU8 vec1U8 vec2U8
  storeLanes 32 distances i (squaredDotAccumulate dotProd res diffU8)

/-- `SIMDComputer<L2SQ, U8>::Vertical<SKIP_PRUNED>` -/
def verticalU8 (dotProd skipPruned : Bool) (query data : Nat → UInt8)
    (nVectors totalVectors startDimension endDimension : Nat)
    (distances : Nat → Nat) (pruningPositions : Nat → Nat) : Nat → Nat :=
  verticalLoops 4 (verticalStep dotProd query data) skipPruned query data nVectors totalVectors
    startDimension endDimension distances pruningPositions

/-- The vector loop of `Horizontal` on the 16 dimensions from `i` on. -/
def horizontalStep (dotProd : Bool) (vector1 vector2 : Nat → UInt8) (sumVec : BitVec 128)
    (i : Nat) : BitVec 128 :=
  let aVec : BitVec 128 := loadLanes 8 128 (bytes vector1) i
  let bVec : BitVec 128 := loadLanes 8 128 (bytes vector2) i
  let dVec := vabdqU8 aVec bVec
  squaredDotAccumulate dotProd sumVec dVec

/-- `SIMDComputer<L2SQ, U8>::Horizontal` -/
def horizontalU8 (dotProd : Bool) (vector1 vector2 : Nat → UInt8) (numDimensions : Nat) : Nat :=
  let steps := numDimensions / 16
  let sumVec := (List.range steps).foldl (fun sumVec step =>
    horizontalStep dotProd vector1 vector2 sumVec (16 * step)) (vdupqNU32 0)
  horizontalTail vector1 vector2 (16 * steps) numDimensions (vaddvqU32 sumVec).toNat

/-- On both kinds of platform a lane gains the squares of the four bytes it covers. -/
theorem lane_squaredDotAccumulate (dotProd : Bool) (acc a : BitVec 128) {i : Nat} (hi : i < 4) :
    lane 32 (squaredDotAccumulate dotProd acc a) i =
      lane 32 acc i + ∑ k ∈ Finset.range 4, squareByte (lane 8 a (4 * i + k)) := by
  cases dotProd with
  | true => exact lane_vdotqU32_self acc a hi
  | false =>
    rw [← lane_vpaddqU32 a hi]
    exact lane_ofLanes _ (by omega)

/-- Every lane of four bytes of the table lookup holds the first four bytes. -/
theorem lane_vqtbl1qU8_idx (vals : BitVec 64) {k : Nat} (hk : k < 16) :
    lane 8 (vqtbl1qU8 (vcombineU8 vals vals) idx) k = lane 8 vals (k % 4) := by
  have hidx : (lane 8 idx k).toNat = k % 4 := by
    rw [idx, lane_ofLanes _ (by omega)]
    interval_cases k <;> rfl
  rw [vqtbl1qU8, lane_ofLanes _ (by omega), hidx, if_pos (by omega), vcombineU8,
    lane_ofLanes _ (by omega), if_pos (by omega)]

theorem lane_vabdqU8 (a b : BitVec 128) {k : Nat} (hk : k < 16) :
    lane 8 (vabdqU8 a b) k = absDiff (lane 8 a k) (lane 8 b k) :=
  lane_ofLanes _ (by omega)

/-- A step of the vector loop is a scalar pass over its four vectors. -/
theorem verticalStep_eq (dotProd : Bool) (query data : Nat → UInt8)
    (dimensionIdx offset i : Nat) (distances : Nat → Nat) :
    verticalStep dotProd query data dimensionIdx offset i distances =
      groupPass query data dimensionIdx offset (List.range' i 4) distances := by
  apply storeLanes_eq_groupPass (by decide)
  intro k hk
  rw [lane_squaredDotAccumulate _ _ _ hk, lane_loadLanes _ _ (by omega), ← sum_squareByte_group]
  congr 1
  refine Finset.sum_congr rfl fun t ht => ?_
  have ht := Finset.mem_range.mp ht
  rw [lane_vabdqU8 _ _ (by omega), lane_vqtbl1qU8_idx _ (by omega),
    show (4 * k + t) % 4 = t by omega, lane_loadLanes_bytes _ _ (by omega),
    lane_loadLanes_bytes _ _ (by omega),
    show offset + i * 4 + (4 * k + t) = offset + (i + k) * 4 + t by ring]

/-- A step of `Horizontal` adds its 16 squares to the sum of the lanes. -/
theorem vaddvqU32_horizontalStep (dotProd : Bool) (vector1 vector2 : Nat → UInt8)
    (sumVec : BitVec 128) (i : Nat) :
    vaddvqU32 (horizontalStep dotProd vector1 vector2 sumVec i) = vaddvqU32 sumVec +
      BitVec.ofNat 32 (∑ k ∈ Finset.range 16, sqDiff (vector1 (i + k)) (vector2 (i + k))) := by
  set dVec := vabdqU8 (loadLanes 8 128 (bytes vector1) i) (loadLanes 8 128 (bytes vector2) i)
    with hdVec
  have hlane : ∀ j ∈ Finset.range 4, lane 32 (horizontalStep dotProd vector1 vector2 sumVec i) j =
      lane 32 sumVec j + ∑ k ∈ Finset.range 4, squareByte (lane 8 dVec (4 * j + k)) := by
    intro j hj
    exact lane_squaredDotAccumulate _ _ _ (Finset.mem_range.mp hj)
  have hgroups : ∑ j ∈ Finset.range 4, ∑ k ∈ Finset.range 4, squareByte (lane 8 dVec (4 * j + k)) =
      ∑ k ∈ Finset.range 16, squareByte (lane 8 dVec k) := by
    simp only [Finset.sum_range_succ, Finset.sum_range_zero]
    abel
  have hbytes : ∀ k ∈ Finset.range 16, squareByte (lane 8 dVec k) =
      BitVec.ofNat 32 (sqDiff (vector1 (i + k)) (vector2 (i + k))) := by
    intro k hk
    have hk := Finset.mem_range.mp hk
    rw [hdVec, lane_vabdqU8 _ _ hk, lane_loadLanes_bytes _ _ (by omega),
      lane_loadLanes_bytes _ _ (by omega), squareByte_absDiff]
  rw [vaddvqU32, Finset.sum_congr rfl hlane, Finset.sum_add_distrib, hgroups,
    Finset.sum_congr rfl hbytes, sum_ofNat]
  rfl

theorem horizontalU8_eq (dotProd : Bool) (vector1 vector2 : Nat → UInt8) (numDimensions : Nat) :
    horizontalU8 dotProd vector1 vector2 numDimensions =
      PDXearch.horizontalU8 vector1 vector2 numDimensions := by
  have hzero : vaddvqU32 (vdupqNU32 0) = 0 := by
    refine Finset.sum_eq_zero fun j hj => ?_
    have hj := Finset.mem_range.mp hj
    exact lane_ofLanes _ (by omega)
  rw [horizontalU8,
    total_foldl_steps vaddvqU32 hzero (vaddvqU32_horizontalStep dotProd vector1 vector2)]
  exact horizontalTail_eq (Nat.mul_div_le numDimensions 16)

end Neon

/-! ## Agreement -/

/-- The vector kernels leave the distances array of the scalar one and compute its horizontal
distances: AVX2, and NEON with the dot product instruction or without. -/
theorem vectorComputers_agree (skipPruned dotProd : Bool) (query data : Nat → UInt8)
    (nVectors totalVectors startDimension endDimension : Nat) (distances positions : Nat → Nat)
    (vector1 vector2 : Nat → UInt8) (numDimensions : Nat) (hstart : 4 ∣ startDimension) :
    Avx2.verticalU8 skipPruned query data nVectors totalVectors startDimension endDimension
        distances positions =
      verticalU8 skipPruned query data nVectors totalVectors startDimension endDimension
        distances positions ∧
    Neon.verticalU8 dotProd skipPruned query data nVectors totalVectors startDimension endDimension
        distances positions =
      verticalU8 skipPruned query data nVectors totalVectors startDimension endDimension
        distances positions ∧
    Avx2.horizontalU8 vector1 vector2 numDimensions =
      horizontalU8 vector1 vector2 numDimensions ∧
    Neon.horizontalU8 dotProd vector1 vector2 numDimensions =
      horizontalU8 vector1 vector2 numDimensions := by
  refine ⟨?_, ?_, ?_, ?_⟩
  · apply verticalLoops_eq hstart
    intro dimensionIdx offset i distances hdim
    exact Avx2.verticalStep_eq hdim offset i distances
  · apply verticalLoops_eq hstart
    intro dimensionIdx offset i distances _
    exact Neon.verticalStep_eq dotProd query data dimensionIdx offset i distances
  · exact Avx2.horizontalU8_eq vector1 vector2 numDimensions
  · exact Neon.horizontalU8_eq dotProd vector1 vector2 numDimensions

/-- Nine vectors, eight of them in registers, from dimension 4 to the end of a compact tail, with
initial distances that wrap; a horizontal block of two registers and five dimensions. -/
theorem vectorComputers_agree_nine_vectors :
    4 ∣ 4 ∧
    Avx2.verticalU8 false (fun d => UInt8.ofNat (17 * d)) (fun k => UInt8.ofNat (29 * k)) 9 9 4 10
      (fun _ => 2 ^ 32 - 1) id 8 = 88047 ∧
    Neon.horizontalU8 true (fun d => UInt8.ofNat (17 * d)) (fun k => UInt8.ofNat (29 * k)) 37 =
      431072 := by
  have hagree := vectorComputers_agree false true (fun d => UInt8.ofNat (17 * d))
    (fun k => UInt8.ofNat (29 * k)) 9 9 4 10 (fun _ => 2 ^ 32 - 1) id
    (fun d => UInt8.ofNat (17 * d)) (fun k => UInt8.ofNat (29 * k)) 37 (by decide)
  refine ⟨by decide, ?_, ?_⟩
  · exact (congrFun hagree.1 8).trans (by decide)
  · exact hagree.2.2.2.trans (by decide)

end PDXearch
