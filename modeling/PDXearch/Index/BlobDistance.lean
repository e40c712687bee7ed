import PDXearch.Create.DataChunk
import PDXearch.Create.DistanceMetric
import PDXearch.Index.BlobCodec

/-!
# The distance functions of BLOBs and arrays

`PDXearchBlobFunctions::Register` adds overloads to the distance functions, in which one of the two
embeddings is an encoded one. They decode the BLOBs of all rows into one buffer and read both
vectors through their selections. Row by row both overloads compute the same function; the first row
whose BLOB has another dimension fails the whole chunk.
-/

namespace PDXearch

open Lib

/-! ## Vectors with NULLs -/

section Rows

variable {A : Type}

/-- `FlatVector::SetNull` -/
def FlatVector.setNull (v : FlatVector A) (i : Nat) : FlatVector A :=
  { v with rowIsValid := Function.update v.rowIsValid i false }

def FlatVector.setData (v : FlatVector A) (i : Nat) (x : A) : FlatVector A :=
  { v with data := Function.update v.data i x }

/-- The value of row `i`, if it is not NULL. -/
def DataVector.value? (v : DataVector A) (i : Nat) : Option A :=
  if v.rowIsValid i then some (v.get i) else none

/-- The values of the first `count` rows. -/
def DataVector.rows (v : DataVector A) (count : Nat) : List (Option A) :=
  (List.range count).map v.value?

/-- `SetVectorType(CONSTANT_VECTOR)`: every row is the first one. -/
def FlatVector.toConstant (v : FlatVector A) : DataVector A := .dictionary v fun _ => 0

theorem DataVector.value?_of_valid {v : DataVector A} {i : Nat} (h : v.rowIsValid i = true) :
    v.value? i = some (v.get i) := if_pos h

theorem FlatVector.value?_eq (v : FlatVector A) (i : Nat) :
    (DataVector.flat v).value? i = if v.rowIsValid i then some (v.data i) else none := rfl

theorem FlatVector.value?_setNull (v : FlatVector A) (i j : Nat) :
    (DataVector.flat (v.setNull i)).value? j =
      if j = i then none else (DataVector.flat v).value? j := by
  rw [value?_eq, value?_eq, setNull]
  by_cases hj : j = i
  · simp [hj]
  · simp only [Function.update_of_ne hj, if_neg hj]

theorem FlatVector.value?_setData {v : FlatVector A} {i : Nat} (hi : v.rowIsValid i = true) (x : A)
    (j : Nat) : (DataVector.flat (v.setData i x)).value? j =
      if j = i then some x else (DataVector.flat v).value? j := by
  rw [value?_eq, value?_eq, setData]
  by_cases hj : j = i
  · simp [hj, hi]
  · simp only [Function.update_of_ne hj, if_neg hj]

theorem DataVector.rows_succ (v : DataVector A) (count : Nat) :
    v.rows (count + 1) = v.rows count ++ [v.value? count] := by
  rw [rows, List.range_succ, List.map_append]
  rfl

theorem DataVector.rows_congr {v v' : DataVector A} {count : Nat}
    (h : ∀ i < count, v.value? i = v'.value? i) : v.rows count = v'.rows count :=
  List.map_congr_left fun i hi => h i (List.mem_range.mp hi)

end Rows

/-! ## The functions -/

section Execute

variable {K : Type} [Field K] (fl : Rat → Rat)

/-- `DecodeBlobToFloatArray`, as it writes to its output. -/
def decodeBlobInto (blob : List UInt8) (output : Nat → K) : Nat → K :=
  fill (blobDimensionCount blob.length)
    (fun i => (((decodeBlobToFloatArray fl blob).getD i 0 : Rat) : K)) output

/-- `ArrayVector::GetEntry`: the arrays of the base vector, one after the other. -/
def arrayChildData (arrays : DataVector (Nat → K)) (arraySize : Nat) : Nat → K :=
  fun x => arrays.base.data (x / arraySize) (x % arraySize)

/-- The text of the `InvalidInputException`. -/
def dimensionMismatch (blobDimensions arraySize : Nat) : String :=
  "BLOB dimension count (" ++ toString blobDimensions ++ ") does not match array size (" ++
    toString arraySize ++ ")"

/-- The buffer that is decoded into, and the result. -/
structure BlobDistanceState (K : Type) where
  decoded : Nat → K
  result : FlatVector K

variable (operation : (Nat → K) → (Nat → K) → Nat → K) (arraySize : Nat)
  (blobs : DataVector (List UInt8)) (arrays : DataVector (Nat → K))

/-- The body of the loops. -/
def blobDistanceRow (s : BlobDistanceState K) (i : Nat) : Except String (BlobDistanceState K) :=
  let blobIdx := blobs.position i
  let arrayIdx := arrays.position i
  if ¬ blobs.base.rowIsValid blobIdx ∨ ¬ arrays.base.rowIsValid arrayIdx then
    .ok { s with result := s.result.setNull i }
  else
    let blob := blobs.base.data blobIdx
    if blobDimensionCount blob.length ≠ arraySize then
      .error (dimensionMismatch (blobDimensionCount blob.length) arraySize)
    else
      let decoded := decodeBlobInto fl blob s.decoded
      let array := fun d => arrayChildData arrays arraySize (arrayIdx * arraySize + d)
      .ok { decoded := decoded, result := s.result.setData i (operation decoded array arraySize) }

/-- The loops on a result vector without NULLs and whatever memory the buffer gets. -/
def blobDistances (count : Nat) (memory resultData : Nat → K) : Except String (DataVector K) := do
  let s ← (List.range count).foldlM (blobDistanceRow fl operation arraySize blobs arrays)
    { decoded := memory, result := ⟨resultData, fun _ => true⟩ }
  .ok (if count = 1 then s.result.toConstant else .flat s.result)

/-- `BlobArrayDistanceExecute`, the BLOB on the left. -/
def blobArrayDistanceExecute (count : Nat) (memory resultData : Nat → K) :
    Except String (DataVector K) :=
  blobDistances fl operation arraySize blobs arrays count memory resultData

/-- `ArrayBlobDistanceExecute`, the BLOB on the right. -/
def arrayBlobDistanceExecute (count : Nat) (memory resultData : Nat → K) :
    Except String (DataVector K) :=
  blobDistances fl (fun decoded array n => operation array decoded n) arraySize blobs arrays count
    memory resultData

/-! ## Row by row -/

/-- The embedding that a BLOB holds. -/
def decodedEmbedding (blob : List UInt8) : Nat → K := decodeBlobInto fl blob fun _ => 0

/-- The distance of a BLOB and an array, either of which may be NULL. -/
def blobDistance : Option (List UInt8) → Option (Nat → K) → Except String (Option K)
  | some blob, some array =>
    if blobDimensionCount blob.length = arraySize then
      .ok (some (operation (decodedEmbedding fl blob) array arraySize))
    else .error (dimensionMismatch (blobDimensionCount blob.length) arraySize)
  | _, _ => .ok none

theorem decodeBlobInto_eq (blob : List UInt8) (output : Nat → K) {d : Nat}
    (hd : d < blobDimensionCount blob.length) :
    decodeBlobInto fl blob output d = decodedEmbedding fl blob d := by
  rw [decodedEmbedding, decodeBlobInto, decodeBlobInto, fill_apply, fill_apply, if_pos hd, if_pos hd]

omit [Field K] in
variable {arraySize} in
/-- The elements that are read from the child are those of the selected array. -/
theorem arrayChildData_eq (arrays : DataVector (Nat → K)) (i : Nat) {d : Nat}
    (hd : d < arraySize) :
    arrayChildData arrays arraySize (arrays.position i * arraySize + d) = arrays.get i d := by
  have hpos : 0 < arraySize := Nat.zero_lt_of_lt hd
  rw [arrayChildData, Nat.mul_comm, Nat.mul_add_div hpos, Nat.div_eq_of_lt hd, Nat.add_zero,
    Nat.mul_add_mod, Nat.mod_eq_of_lt hd]
  rfl

/-- A kernel that reads `n` elements of its operands. -/
def ReadsElements (operation : (Nat → K) → (Nat → K) → Nat → K) : Prop :=
  ∀ lhs lhs' rhs rhs' n, (∀ d < n, lhs d = lhs' d) → (∀ d < n, rhs d = rhs' d) →
    operation lhs rhs n = operation lhs' rhs' n

variable {fl operation arraySize blobs arrays}

/-- What an iteration does to the result is what the function does in the row. -/
theorem blobDistanceRow_cases (hoperation : ReadsElements operation) {i : Nat}
    {s : BlobDistanceState K} (hvalid : s.result.rowIsValid i = true) :
    (∃ e, blobDistance fl operation arraySize (blobs.value? i) (arrays.value? i) = .error e ∧
      blobDistanceRow fl operation arraySize blobs arrays s i = .error e) ∨
    ∃ x s', blobDistance fl operation arraySize (blobs.value? i) (arrays.value? i) = .ok x ∧
      blobDistanceRow fl operation arraySize blobs arrays s i = .ok s' ∧
      (∀ j, (DataVector.flat s'.result).value? j =
        if j = i then x else (DataVector.flat s.result).value? j) ∧
      ∀ j ≠ i, s'.result.rowIsValid j = s.result.rowIsValid j := by
  by_cases hnull : ¬ blobs.rowIsValid i ∨ ¬ arrays.rowIsValid i
  · have hnone : blobDistance fl operation arraySize (blobs.value? i) (arrays.value? i) =
        .ok none := by
      rcases hnull with hblob | harray
      · rw [DataVector.value?, if_neg hblob, blobDistance]
        simp
      · rw [DataVector.value?, DataVector.value?, if_neg harray]
        split_ifs <;> rfl
    refine Or.inr ⟨none, _, hnone, if_pos hnull, fun j => FlatVector.value?_setNull _ i j,
      fun j hj => Function.update_of_ne hj _ _⟩
  · obtain ⟨hblob, harray⟩ := not_or.mp hnull
    rw [DataVector.value?_of_valid (not_not.mp hblob),
      DataVector.value?_of_valid (not_not.mp harray), blobDistance]
    have hrow : blobDistanceRow fl operation arraySize blobs arrays s i =
        if blobDimensionCount (blobs.get i).length ≠ arraySize then _ else _ := if_neg hnull
    rw [hrow]
    by_cases hdims : blobDimensionCount (blobs.get i).length = arraySize
    · rw [if_pos hdims, if_neg (not_not.mpr hdims)]
      have hdistance := hoperation (decodeBlobInto fl (blobs.get i) s.decoded)
        (decodedEmbedding fl (blobs.get i))
        (fun d => arrayChildData arrays arraySize (arrays.position i * arraySize + d))
        (arrays.get i) arraySize (fun d hd => decodeBlobInto_eq fl _ _ (hdims.symm ▸ hd))
        (fun d hd => arrayChildData_eq arrays i hd)
      refine Or.inr ⟨_, _, rfl, rfl, fun j => ?_, fun j _ => rfl⟩
      rw [← hdistance]
      exact FlatVector.value?_setData hvalid _ j
    · rw [if_neg hdims, if_pos hdims]
      exact Or.inl ⟨_, rfl, rfl⟩

/-- The result, row by row, whatever was in the buffer and in the result vector. -/
theorem blobDistances_rows (hoperation : ReadsElements operation) (count : Nat)
    (memory resultData : Nat → K) :
    (fun result => result.rows count) <$>
        blobDistances fl operation arraySize blobs arrays count memory resultData =
      (List.range count).mapM fun i =>
        blobDistance fl operation arraySize (blobs.value? i) (arrays.value? i) := by
  let start : BlobDistanceState K := { decoded := memory, result := ⟨resultData, fun _ => true⟩ }
  -- the rows behind the current one are those of the fresh result vector
  have hloop : (∃ e, ((List.range count).mapM fun i =>
        blobDistance fl operation arraySize (blobs.value? i) (arrays.value? i)) = .error e ∧
      (List.range count).foldlM (blobDistanceRow fl operation arraySize blobs arrays) start =
        .error e) ∨
      ∃ values s, ((List.range count).mapM fun i =>
        blobDistance fl operation arraySize (blobs.value? i) (arrays.value? i)) = .ok values ∧
      (List.range count).foldlM (blobDistanceRow fl operation arraySize blobs arrays) start = .ok s ∧
      (DataVector.flat s.result).rows count = values ∧
        ∀ i, count ≤ i → s.result.rowIsValid i = true := by
    refine foldlM_range_induction (P := fun t values (s : BlobDistanceState K) =>
      (DataVector.flat s.result).rows t = values ∧ ∀ i, t ≤ i → s.result.rowIsValid i = true) count
      ⟨rfl, fun _ _ => rfl⟩ ?_
    rintro t values s - ⟨rfl, hfresh⟩
    rcases blobDistanceRow_cases hoperation (hfresh t le_rfl) with
      ⟨e, hvalue, hrow⟩ | ⟨x, s', hvalue, hrow, hvalues, hframe⟩
    · exact Or.inl ⟨e, hvalue, hrow⟩
    · refine Or.inr ⟨x, s', hvalue, hrow, ?_, fun i hi => ?_⟩
      · rw [DataVector.rows_succ, hvalues t, if_pos rfl]
        congr 1
        exact DataVector.rows_congr fun i hi => (hvalues i).trans (if_neg hi.ne)
      · exact (hframe i (by omega)).trans (hfresh i (by omega))
  rcases hloop with ⟨e, hvalues, hloop⟩ | ⟨values, s, hvalues, hloop, hrows, -⟩
  · rw [hvalues, blobDistances, hloop]
    rfl
  · rw [hvalues, blobDistances, hloop, ← hrows]
    by_cases hone : count = 1
    · subst hone
      rfl
    · simp only [bind, Except.bind, if_neg hone, Functor.map, Except.map]

end Execute

/-! ## The registered kernels -/

section Registered

variable {K : Type} [Field K] [LinearOrder K] {op : DistanceOp K} {name : String}

theorem distanceOverload_cases (hname : distanceOverload name = some op) :
    op = blobDistanceOp ∨ op = blobCosineDistanceOp := by
  rw [distanceOverload] at hname
  split_ifs at hname
  · exact Or.inl (Option.some.inj hname).symm
  · exact Or.inr (Option.some.inj hname).symm

omit [Field K] [LinearOrder K] in
theorem arrayVector_congr {n : Nat} {x y : Nat → K} (h : ∀ d < n, x d = y d) :
    arrayVector n x = arrayVector n y :=
  funext fun i => h i i.isLt

theorem readsElements_of_distanceOverload (hname : distanceOverload name = some op) (sqrt : K → K) :
    ReadsElements (op sqrt) := by
  intro lhs lhs' rhs rhs' n hlhs hrhs
  rcases distanceOverload_cases hname with rfl | rfl
  · rw [blobDistanceOp_eq, blobDistanceOp_eq, arrayVector_congr hlhs, arrayVector_congr hrhs]
  · rw [blobCosineDistanceOp_eq, blobCosineDistanceOp_eq, arrayVector_congr hlhs,
      arrayVector_congr hrhs]

/-- The distances are symmetric. -/
theorem distanceOverload_comm (hname : distanceOverload name = some op) (sqrt : K → K)
    (lhs rhs : Nat → K) (n : Nat) : op sqrt lhs rhs n = op sqrt rhs lhs n := by
  rcases distanceOverload_cases hname with rfl | rfl
  · rw [blobDistanceOp_eq, blobDistanceOp_eq, sqDist_comm]
  · rw [blobCosineDistanceOp_eq, blobCosineDistanceOp_eq,
      dotProduct_comm (arrayVector n rhs) (arrayVector n lhs),
      mul_comm (arrayVector n rhs ⬝ᵥ arrayVector n rhs)]

/-- Both overloads of a registered function compute one function row by row, and fail where it fails
first. -/
theorem distanceOverload_executes (hname : distanceOverload name = some op) (fl : Rat → Rat)
    (sqrt : K → K) (arraySize : Nat) (blobs : DataVector (List UInt8))
    (arrays : DataVector (Nat → K)) (count : Nat) (memory resultData : Nat → K) :
    (fun result => result.rows count) <$>
        blobArrayDistanceExecute fl (op sqrt) arraySize blobs arrays count memory resultData =
      ((List.range count).mapM fun i =>
        blobDistance fl (op sqrt) arraySize (blobs.value? i) (arrays.value? i)) ∧
    (fun result => result.rows count) <$>
        arrayBlobDistanceExecute fl (op sqrt) arraySize blobs arrays count memory resultData =
      (List.range count).mapM fun i =>
        blobDistance fl (op sqrt) arraySize (blobs.value? i) (arrays.value? i) := by
  have hreads := readsElements_of_distanceOverload hname sqrt
  have hswap : (fun decoded array n => op sqrt array decoded n) = op sqrt := by
    funext decoded array n
    exact distanceOverload_comm hname sqrt array decoded n
  refine ⟨blobDistances_rows hreads count memory resultData, ?_⟩
  rw [arrayBlobDistanceExecute, hswap]
  exact blobDistances_rows hreads count memory resultData

/-- A constant BLOB of one dimension, and three arrays, the second of which is NULL. -/
theorem distanceOverload_executes_threeRows :
    (fun result => result.rows 3) <$> arrayBlobDistanceExecute id (blobDistanceOp fun x : Rat => x) 1
        (FlatVector.toConstant ⟨fun _ => bytesOfInt16 (packInt16 2 3), fun _ => true⟩)
        (.flat ⟨fun i _ => i, fun i => i ≠ 1⟩) 3 (fun _ => 7) (fun _ => 7) =
      .ok [some (4 / 10000), none, some (39204 / 10000)] ∧
    (fun result => result.rows 3) <$> blobArrayDistanceExecute id (blobDistanceOp fun x : Rat => x) 2
        (FlatVector.toConstant ⟨fun _ => bytesOfInt16 (packInt16 2 3), fun _ => true⟩)
        (.flat ⟨fun i _ => i, fun i => i ≠ 1⟩) 3 (fun _ => 7) (fun _ => 7) =
      .error "BLOB dimension count (1) does not match array size (2)" := by
  have hname : distanceOverload (K := Rat) "<->" = some blobDistanceOp := rfl
  constructor
  · rw [(distanceOverload_executes hname id _ 1 _ _ 3 _ _).2]
    decide +kernel
  · rw [(distanceOverload_executes hname id _ 2 _ _ 3 _ _).1]
    decide +kernel

end Registered

end PDXearch
