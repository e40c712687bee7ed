import PDXearch.Kernel.Layout
import Mathlib.Algebra.Order.BigOperators.Group.List
import Mathlib.Tactic.Linarith
import Mathlib.Tactic.Ring

/-!
# The accumulations of a distance computer

A call of `Vertical` or `Horizontal` is a list of accumulations: each adds to one entry of the
distances array the squared differences found at certain offsets of query and data. The list shows
what the computer's result does not, every offset it reads and every sum on the way; carrying the
accumulations out is the call (`verticalF32_eq_accumulate`, `verticalU8_eq_accumulate`).

On an aligned range of vertical dimensions the offsets are the cells of the layout
(`verticalU8_reads`). Accumulations whose squares fit on top of the entries do not wrap
(`noWrap_of_count`).
-/

namespace PDXearch

open Lib ExactFloat

/-- `distances[vectorIdx] += …`, with the offsets of query and data of the squares added. -/
structure Accumulation where
  vectorIdx : Nat
  reads : List (Nat × Nat)

/-- Carry out accumulations; `add` adds the squares at the given offsets. -/
def accumulate {D : Type} (add : D → List (Nat × Nat) → D) (accs : List Accumulation)
    (distances : Nat → D) : Nat → D :=
  accs.foldl (fun distances acc =>
    Function.update distances acc.vectorIdx (add (distances acc.vectorIdx) acc.reads)) distances

/-! ## F32 -/

section F32

variable {K : Type} [Field K]

def addF32 (query data : Nat → K) (distance : ExactFloat K) (reads : List (Nat × Nat)) :
    ExactFloat K :=
  reads.foldl (fun distance r =>
    distance + ofReal ((query r.1 - data r.2) * (query r.1 - data r.2))) distance

/-- The accumulations of `ScalarComputer<L2SQ, F32>::Vertical`. -/
def verticalF32Accumulations (vectors : List Nat)
    (totalVectors startDimension endDimension : Nat) : List Accumulation :=
  (List.range (endDimension - startDimension)).flatMap fun step =>
    vectors.map fun trueVectorIdx =>
      ⟨trueVectorIdx,
        [(startDimension + step, (startDimension + step) * totalVectors + trueVectorIdx)]⟩

theorem verticalF32_eq_accumulate (skipPruned : Bool) (query data : Nat → K) (m n a b : Nat)
    (distances : Nat → ExactFloat K) (positions : Nat → Nat) :
    verticalF32 skipPruned query data m n a b distances positions =
      accumulate (addF32 query data)
        (verticalF32Accumulations (visited skipPruned positions m) n a b) distances := by
  simp only [verticalF32, accumulate, verticalF32Accumulations, List.foldl_flatMap, List.foldl_map,
    addF32, List.foldl_cons, List.foldl_nil]

/-- An F32 call reads its own dimensions, at the cells of the layout. -/
theorem verticalF32_reads {vectors : List Nat} {n a b : Nat} {acc : Accumulation}
    (hacc : acc ∈ verticalF32Accumulations vectors n a b) {r : Nat × Nat} (hr : r ∈ acc.reads) :
    acc.vectorIdx ∈ vectors ∧ a ≤ r.1 ∧ r.1 < b ∧ r.2 = r.1 * n + acc.vectorIdx := by
  obtain ⟨step, hstep, hmem⟩ := List.mem_flatMap.mp hacc
  obtain ⟨i, hi, rfl⟩ := List.mem_map.mp hmem
  have hstep := List.mem_range.mp hstep
  obtain rfl := List.mem_singleton.mp hr
  exact ⟨hi, Nat.le_add_right a step, by simp only; omega, rfl⟩

end F32

/-! ## U8 -/

/-- The squares at the given offsets, added up. -/
def squares (query data : Nat → UInt8) (reads : List (Nat × Nat)) : Nat :=
  (reads.map fun r => sqDiff (query r.1) (data r.2)).sum

def addU8 (query data : Nat → UInt8) (distance : Nat) (reads : List (Nat × Nat)) : Nat :=
  (distance + squares query data reads) % 2 ^ 32

/-- The accumulations of `ScalarComputer<L2SQ, U8>::Vertical`. -/
def verticalU8Accumulations (vectors : List Nat)
    (totalVectors startDimension endDimension : Nat) : List Accumulation :=
  let groups := (endDimension - startDimension) / u8InterleaveSize
  let dimIdx := startDimension + u8InterleaveSize * groups
  let remaining := endDimension - dimIdx
  ((List.range groups).flatMap fun step =>
    let dimensionIdx := startDimension + u8InterleaveSize * step
    vectors.map fun vectorIdx =>
      ⟨vectorIdx, (List.range u8InterleaveSize).map fun k =>
        (dimensionIdx + k, dimensionIdx * totalVectors + vectorIdx * 4 + k)⟩) ++
  if dimIdx < endDimension then
    vectors.flatMap fun vectorIdx =>
      (List.range remaining).map fun k =>
        ⟨vectorIdx, [(dimIdx + k, dimIdx * totalVectors + vectorIdx * remaining + k)]⟩
  else []

/-- The accumulations of `ScalarComputer<L2SQ, U8>::Horizontal`, to its local variable. -/
def horizontalU8Accumulations (numDimensions : Nat) : List Accumulation :=
  (List.range numDimensions).map fun i => ⟨0, [(i, i)]⟩

theorem mem_verticalU8Accumulations {vectors : List Nat} {n a b : Nat} {acc : Accumulation}
    (hacc : acc ∈ verticalU8Accumulations vectors n a b) :
    acc.vectorIdx ∈ vectors ∧ acc.reads.length ≤ 4 := by
  rcases List.mem_append.mp hacc with hgroups | htail
  · obtain ⟨step, -, hmem⟩ := List.mem_flatMap.mp hgroups
    obtain ⟨i, hi, rfl⟩ := List.mem_map.mp hmem
    exact ⟨hi, by simp⟩
  · split_ifs at htail
    · obtain ⟨i, hi, hmem⟩ := List.mem_flatMap.mp htail
      obtain ⟨k, -, rfl⟩ := List.mem_map.mp hmem
      exact ⟨hi, by simp⟩
    · cases htail

theorem verticalU8_eq_accumulate (skipPruned : Bool) (query data : Nat → UInt8) (m n a b : Nat)
    (distances : Nat → Nat) (positions : Nat → Nat) :
    verticalU8 skipPruned query data m n a b distances positions =
      accumulate (addU8 query data)
        (verticalU8Accumulations (visited skipPruned positions m) n a b) distances := by
  have hgroup : ∀ d off, squares query data ((List.range 4).map fun k => (d + k, off + k)) =
      sqDiff (query d) (data off) + sqDiff (query (d + 1)) (data (off + 1)) +
        sqDiff (query (d + 2)) (data (off + 2)) + sqDiff (query (d + 3)) (data (off + 3)) := by
    intro d off
    simp only [squares, List.range_succ, List.range_zero, List.nil_append, List.cons_append,
      List.map_cons, List.map_nil, List.sum_cons, List.sum_nil, Nat.add_zero]
    omega
  have hone : ∀ d off, squares query data [(d, off)] = sqDiff (query d) (data off) := by
    intro d off
    simp only [squares, List.map_cons, List.map_nil, List.sum_cons, List.sum_nil, Nat.add_zero]
  simp only [verticalU8, accumulate, verticalU8Accumulations, List.foldl_append, List.foldl_flatMap,
    List.foldl_map, addU8, u8InterleaveSize, hgroup]
  split_ifs with htail
  · simp only [List.foldl_flatMap, List.foldl_map, hone]
    congr 1
    funext distances i
    exact (foldl_update_same (fun distance k => (distance + sqDiff _ _) % 2 ^ 32) i _
      distances).symm
  · rfl

theorem horizontalU8_eq_accumulate (vector1 vector2 : Nat → UInt8) (numDimensions : Nat) :
    horizontalU8 vector1 vector2 numDimensions =
      accumulate (addU8 vector1 vector2) (horizontalU8Accumulations numDimensions)
        (fun _ => 0) 0 := by
  have hone : ∀ i, squares vector1 vector2 [(i, i)] = sqDiff (vector1 i) (vector2 i) := by
    intro i
    simp only [squares, List.map_cons, List.map_nil, List.sum_cons, List.sum_nil, Nat.add_zero]
  rw [accumulate, horizontalU8Accumulations, List.foldl_map]
  simp only [addU8, hone]
  rw [foldl_update_same (fun distance i => (distance + sqDiff (vector1 i) (vector2 i)) % 2 ^ 32),
    Function.update_self, horizontalU8]

/-! ## Offsets -/

/-- The cell of dimension `d` of vector `i`, in a cluster of `n` vectors with `v` vertical
dimensions. -/
def cellU8 (v n i d : Nat) : Nat :=
  let group := d / u8InterleaveSize * u8InterleaveSize
  if d < v then
    if group + u8InterleaveSize ≤ v then
      group * n + i * u8InterleaveSize + d % u8InterleaveSize
    else group * n + i * (v - group) + d % u8InterleaveSize
  else v * n + (d - v) / hDimSize * hDimSize * n + i * hDimSize + (d - v) % hDimSize

theorem readU8_eq_cellU8 (v n : Nat) (data : Nat → UInt8) (i d : Nat) :
    readU8 v n data i d = data (cellU8 v n i d) := by
  simp only [readU8, cellU8]
  split_ifs <;> rfl

/-- Row `i` of a block of `n` rows of `w` cells ends within the block. -/
theorem row_lt {n w i k : Nat} (hi : i < n) (hk : k < w) : i * w + k < n * w :=
  calc i * w + k < i * w + w := Nat.add_lt_add_left hk _
    _ = (i + 1) * w := (Nat.succ_mul i w).symm
    _ ≤ n * w := Nat.mul_le_mul_right w hi

/-- A U8 call on an aligned range reads its own dimensions, at the cells of the layout. -/
theorem verticalU8_reads {vectors : List Nat} {v n a b : Nat} (hab : Aligned v a b)
    {acc : Accumulation} (hacc : acc ∈ verticalU8Accumulations vectors n a b) {r : Nat × Nat}
    (hr : r ∈ acc.reads) :
    acc.vectorIdx ∈ vectors ∧ a ≤ r.1 ∧ r.1 < b ∧ r.2 = cellU8 v n acc.vectorIdx r.1 := by
  obtain ⟨ha, hle, hbv, hb⟩ := hab
  simp only [verticalU8Accumulations, u8InterleaveSize] at hacc
  rcases List.mem_append.mp hacc with hgroups | htail
  · obtain ⟨step, hstep, hmem⟩ := List.mem_flatMap.mp hgroups
    obtain ⟨i, hi, rfl⟩ := List.mem_map.mp hmem
    obtain ⟨k, hk, rfl⟩ := List.mem_map.mp hr
    have hstep := List.mem_range.mp hstep
    have hk := List.mem_range.mp hk
    refine ⟨hi, by simp only; omega, by simp only; omega, ?_⟩
    have hgroup : (a + 4 * step + k) / 4 * 4 = a + 4 * step := by omega
    have hmod : (a + 4 * step + k) % 4 = k := by omega
    simp only [cellU8, u8InterleaveSize]
    rw [hgroup, hmod, if_pos (by omega), if_pos (by omega)]
  · split_ifs at htail with hlt
    · obtain ⟨i, hi, hmem⟩ := List.mem_flatMap.mp htail
      obtain ⟨k, hk, rfl⟩ := List.mem_map.mp hmem
      obtain rfl := List.mem_singleton.mp hr
      have hk := List.mem_range.mp hk
      refine ⟨hi, by simp only; omega, by simp only; omega, ?_⟩
      -- what fills no group is the compact tail of the layout
      obtain rfl : b = v := by omega
      have hgroup : (a + 4 * ((b - a) / 4) + k) / 4 * 4 = a + 4 * ((b - a) / 4) := by omega
      have hmod : (a + 4 * ((b - a) / 4) + k) % 4 = k := by omega
      simp only [cellU8, u8InterleaveSize]
      rw [hgroup, hmod, if_pos (by omega), if_neg (by omega)]
    · cases htail

/-! ## Wrapping -/

/-- The `int`s on the way to a sum of squares: the differences, the squares, and the sums of the
first squares. -/
def intermediates (query data : Nat → UInt8) (reads : List (Nat × Nat)) : List Int :=
  let differences := reads.map fun r => ((query r.1).toNat : Int) - (data r.2).toNat
  let products := differences.map fun d => d * d
  differences ++ products ++ (List.range reads.length).map fun t => (products.take (t + 1)).sum

/-- No `int` overflows and no addition to a 32-bit distance wraps. -/
def NoWrap (query data : Nat → UInt8) : List Accumulation → (Nat → Nat) → Prop
  | [], _ => True
  | acc :: accs, distances =>
    (∀ x ∈ intermediates query data acc.reads, -2 ^ 31 ≤ x ∧ x < 2 ^ 31) ∧
    distances acc.vectorIdx + squares query data acc.reads < 2 ^ 32 ∧
    NoWrap query data accs
      (Function.update distances acc.vectorIdx
        (addU8 query data (distances acc.vectorIdx) acc.reads))

/-- The number of squares that accumulations add to entry `i`. -/
def readCount (accs : List Accumulation) (i : Nat) : Nat :=
  (accs.map fun acc => if acc.vectorIdx = i then acc.reads.length else 0).sum

theorem readCount_cons (acc : Accumulation) (accs : List Accumulation) (i : Nat) :
    readCount (acc :: accs) i =
      (if acc.vectorIdx = i then acc.reads.length else 0) + readCount accs i := by
  rw [readCount, List.map_cons, List.sum_cons, readCount]

theorem readCount_append (accs accs' : List Accumulation) (i : Nat) :
    readCount (accs ++ accs') i = readCount accs i + readCount accs' i := by
  rw [readCount, List.map_append, List.sum_append, readCount, readCount]

theorem readCount_flatMap_le {α : Type} {xs : List α} {f : α → List Accumulation} {i c : Nat}
    (hf : ∀ x ∈ xs, readCount (f x) i ≤ c) : readCount (xs.flatMap f) i ≤ c * xs.length := by
  induction xs with
  | nil => exact Nat.zero_le _
  | cons x xs ih =>
    have hx := hf x List.mem_cons_self
    have hrest := ih fun y hy => hf y (List.mem_cons_of_mem x hy)
    rw [List.flatMap_cons, readCount_append, List.length_cons, Nat.mul_succ]
    omega

/-- One pass over the vectors, with `w` squares for each. -/
theorem readCount_pass {vectors : List Nat} {f : Nat → List Accumulation} {w : Nat}
    (hself : ∀ x, readCount (f x) x ≤ w) (hother : ∀ x i, x ≠ i → readCount (f x) i = 0)
    (hnd : vectors.Nodup) (i : Nat) : readCount (vectors.flatMap f) i ≤ w := by
  induction vectors with
  | nil => exact Nat.zero_le _
  | cons x xs ih =>
    obtain ⟨hx, hnd⟩ := List.nodup_cons.mp hnd
    rw [List.flatMap_cons, readCount_append]
    by_cases hxi : x = i
    · subst hxi
      have hrest : readCount (xs.flatMap f) x ≤ 0 * xs.length := by
        apply readCount_flatMap_le
        intro y hy
        rw [hother y x fun heq => hx (heq ▸ hy)]
      have hfirst := hself x
      omega
    · rw [hother x i hxi, Nat.zero_add]
      exact ih hnd

/-- A row of accumulations to entry `x`, of one square each. -/
theorem readCount_row (g : Nat → Nat × Nat) (x w i : Nat) :
    readCount ((List.range w).map fun k => ⟨x, [g k]⟩) i = if x = i then w else 0 := by
  induction w with
  | zero => simp [readCount]
  | succ w ih =>
    rw [List.range_succ, List.map_append, readCount_append, ih, List.map_cons, List.map_nil,
      readCount_cons]
    split_ifs
    · rfl
    · rfl

/-- A U8 call adds to an entry as many squares as the range has dimensions. -/
theorem readCount_verticalU8 {vectors : List Nat} (hnd : vectors.Nodup) (n a b i : Nat) :
    readCount (verticalU8Accumulations vectors n a b) i ≤ b - a := by
  simp only [verticalU8Accumulations, u8InterleaveSize]
  set groups := (b - a) / 4 with hgroups
  set dimIdx := a + 4 * groups with hdimIdx
  have hgroup : ∀ step ∈ List.range groups, readCount (vectors.map fun vectorIdx =>
      (⟨vectorIdx, (List.range 4).map fun k =>
        (a + 4 * step + k, (a + 4 * step) * n + vectorIdx * 4 + k)⟩ : Accumulation)) i ≤ 4 := by
    intro step _
    rw [← List.flatMap_pure_eq_map]
    refine readCount_pass (fun x => ?_) (fun x i hxi => ?_) hnd i
    · simp [readCount]
    · simp [readCount, hxi]
  have htail : readCount (vectors.flatMap fun vectorIdx =>
      (List.range (b - dimIdx)).map fun k =>
        ⟨vectorIdx, [(dimIdx + k, dimIdx * n + vectorIdx * (b - dimIdx) + k)]⟩) i ≤ b - dimIdx := by
    refine readCount_pass (fun x => ?_) (fun x i hxi => ?_) hnd i
    · rw [readCount_row, if_pos rfl]
    · rw [readCount_row, if_neg hxi]
  have hall := readCount_flatMap_le hgroup
  rw [List.length_range] at hall
  rw [readCount_append]
  split_ifs with hlt
  · omega
  · have hnil : readCount [] i = 0 := rfl
    omega

theorem squares_le (query data : Nat → UInt8) (reads : List (Nat × Nat)) :
    squares query data reads ≤ 65025 * reads.length := by
  induction reads with
  | nil => exact Nat.zero_le _
  | cons r reads ih =>
    have hr := sqDiff_le (query r.1) (data r.2)
    rw [squares, List.map_cons, List.sum_cons, ← squares, List.length_cons]
    omega

/-- A sum of at most four squares of byte differences stays far below the greatest `int`. -/
theorem intermediates_bound (query data : Nat → UInt8) {reads : List (Nat × Nat)}
    (hlen : reads.length ≤ 4) {x : Int} (hx : x ∈ intermediates query data reads) :
    -2 ^ 31 ≤ x ∧ x < 2 ^ 31 := by
  set differences := reads.map fun r => ((query r.1).toNat : Int) - (data r.2).toNat
    with hdifferences
  set products := differences.map fun d => d * d with hproducts
  have hdifference : ∀ d ∈ differences, -255 ≤ d ∧ d ≤ 255 := by
    intro d hd
    obtain ⟨r, -, rfl⟩ := List.mem_map.mp hd
    have hq := (query r.1).toNat_lt
    have hs := (data r.2).toNat_lt
    exact ⟨by omega, by omega⟩
  have hproduct : ∀ p ∈ products, 0 ≤ p ∧ p ≤ 65025 := by
    intro p hp
    obtain ⟨d, hd, rfl⟩ := List.mem_map.mp hp
    obtain ⟨hlow, hhigh⟩ := hdifference d hd
    exact ⟨mul_self_nonneg d, by nlinarith⟩
  have hlength : products.length = reads.length := by
    rw [hproducts, hdifferences, List.length_map, List.length_map]
  change x ∈ differences ++ products ++
    (List.range reads.length).map (fun t => (products.take (t + 1)).sum) at hx
  rw [List.mem_append, List.mem_append] at hx
  rcases hx with (hx | hx) | hx
  · have hbound := hdifference x hx
    omega
  · have hbound := hproduct x hx
    omega
  · obtain ⟨t, -, rfl⟩ := List.mem_map.mp hx
    have htake : ∀ p ∈ products.take (t + 1), 0 ≤ p ∧ p ≤ 65025 := fun p hp =>
      hproduct p (List.mem_of_mem_take hp)
    have hnonneg : 0 ≤ (products.take (t + 1)).sum :=
      List.sum_nonneg fun p hp => (htake p hp).1
    have hsum := List.sum_le_card_nsmul (products.take (t + 1)) 65025 fun p hp => (htake p hp).2
    have hfew : (products.take (t + 1)).length ≤ 4 :=
      (List.length_take_le' (t + 1) products).trans (hlength ▸ hlen)
    rw [nsmul_eq_mul] at hsum
    omega

/-- An entry grows by at most the greatest square for each square added. -/
theorem accumulate_le (query data : Nat → UInt8) (accs : List Accumulation)
    (distances : Nat → Nat) (i : Nat) :
    accumulate (addU8 query data) accs distances i ≤ distances i + 65025 * readCount accs i := by
  induction accs generalizing distances with
  | nil => exact Nat.le_add_right _ _
  | cons acc accs ih =>
    have hsquares := squares_le query data acc.reads
    have hmod := Nat.mod_le (distances acc.vectorIdx + squares query data acc.reads) (2 ^ 32)
    have hrest := ih (Function.update distances acc.vectorIdx
      (addU8 query data (distances acc.vectorIdx) acc.reads))
    rw [readCount_cons]
    refine hrest.trans ?_
    by_cases hi : acc.vectorIdx = i
    · subst hi
      rw [Function.update_self, if_pos rfl, addU8]
      omega
    · rw [Function.update_of_ne (Ne.symm hi), if_neg hi]
      omega

/-- If the greatest squares fit on top of the entries, nothing wraps. -/
theorem noWrap_of_count {query data : Nat → UInt8} {accs : List Accumulation}
    {distances : Nat → Nat} (hlen : ∀ acc ∈ accs, acc.reads.length ≤ 4)
    (hroom : ∀ acc ∈ accs,
      distances acc.vectorIdx + 65025 * readCount accs acc.vectorIdx < 2 ^ 32) :
    NoWrap query data accs distances := by
  induction accs generalizing distances with
  | nil => trivial
  | cons acc accs ih =>
    have hsquares := squares_le query data acc.reads
    have hfirst := hroom acc List.mem_cons_self
    rw [readCount_cons, if_pos rfl] at hfirst
    have hfit : distances acc.vectorIdx + squares query data acc.reads < 2 ^ 32 := by omega
    refine ⟨fun x hx => intermediates_bound query data (hlen acc List.mem_cons_self) hx, hfit,
      ih (fun acc' hacc' => hlen acc' (List.mem_cons_of_mem acc hacc')) fun acc' hacc' => ?_⟩
    have hnext := hroom acc' (List.mem_cons_of_mem acc hacc')
    rw [readCount_cons] at hnext
    by_cases hsame : acc.vectorIdx = acc'.vectorIdx
    · rw [if_pos hsame] at hnext
      rw [← hsame, Function.update_self, addU8, Nat.mod_eq_of_lt hfit]
      rw [← hsame] at hnext
      omega
    · rw [Function.update_of_ne (Ne.symm hsame)]
      rw [if_neg hsame] at hnext
      omega

end PDXearch
