import PDXearch.Kernel.Rounding
import Mathlib.Data.Rat.Floor
import Mathlib.Tactic.IntervalCases
import Mathlib.Tactic.NormNum.OfScientific

/-!
# The blob codec

`pdxearch_blob_codec.hpp` packs a float into 16 bits: a quotient of 14 bits with sign and, in the
lower two bits, the selector of one of four decimal scales. The definitions take the rounding `fl`
of the results of float operations as a parameter; with `id` in its place they compute with exact
decimal scales.

Decoded numbers are multiples of the scale they were stored with, so on every finer scale they are
multiples too, and encoding them again is exact even where it selects another scale.
-/

namespace PDXearch

section Codec

variable (fl : Rat → Rat)

/-- `BLOB_SCALE` -/
def blobScale (x : Nat) : Rat := fl ([1 / 100000, 1 / 10000, 1 / 1000, 1 / 100].getD x 0)

/-- `BLOB_INV_SCALE`, all of them floats. -/
def blobInvScale (x : Nat) : Rat := [100000, 10000, 1000, 100].getD x 0

/-- `static_cast<int32_t>(std::round(value * BLOB_INV_SCALE[x]))` -/
def blobQuotient (value : Rat) (x : Nat) : Option Int :=
  toInt32 (round (fl (value * blobInvScale x)))

/-- `static_cast<int16_t>((q << 2) | x)` -/
def packInt16 (q : Int) (x : Nat) : BitVec 16 :=
  (BitVec.ofInt 32 q <<< 2 ||| BitVec.ofNat 32 x).setWidth 16

/-- The clamp to the greatest and the least quotient. -/
def clampQuotient (q : Int) : Int := if 8191 < q then 8191 else if q < -8192 then -8192 else q

/-- The loop of `EncodeFloatToInt16` over the selectors that are left, and the clamp behind it. -/
def encodeWithSelectors (value : Rat) : List Nat → Option (BitVec 16)
  | [] => do
    let q ← blobQuotient fl value 3
    some (packInt16 (clampQuotient q) 3)
  | x :: xs => do
    let q ← blobQuotient fl value x
    if -8192 ≤ q ∧ q ≤ 8191 then some (packInt16 q x) else encodeWithSelectors value xs

def encodeFloatToInt16 (value : Rat) : Option (BitVec 16) :=
  encodeWithSelectors fl value (List.range 4)

/-- `encoded & 3`; the operand is an `int`. -/
def blobSelector (encoded : BitVec 16) : Nat := (encoded.signExtend 32 &&& 3#32).toNat

/-- `encoded >> 2`, the arithmetic shift. -/
def blobStoredQuotient (encoded : BitVec 16) : Int := ((encoded.signExtend 32).sshiftRight 2).toInt

def decodeInt16ToFloat (encoded : BitVec 16) : Rat :=
  fl (blobStoredQuotient encoded * blobScale fl (blobSelector encoded))

end Codec

/-! ## Packing -/

/-- The two bits that the shift frees hold the selector. -/
theorem shiftLeft_or_eq (q : BitVec 32) {x : Nat} (hx : x < 4) :
    (q <<< 2 ||| BitVec.ofNat 32 x).toNat = q.toNat % 2 ^ 30 * 4 + x := by
  have hshift : q.toNat <<< 2 % 2 ^ 32 = (q.toNat % 2 ^ 30) <<< 2 := by
    rw [Nat.shiftLeft_eq, Nat.shiftLeft_eq]
    omega
  rw [BitVec.toNat_or, BitVec.toNat_shiftLeft, BitVec.toNat_ofNat,
    Nat.mod_eq_of_lt (show x < 2 ^ 32 by omega), hshift,
    ← Nat.shiftLeft_add_eq_or_of_lt (show x < 2 ^ 2 by omega), Nat.shiftLeft_eq]

theorem packInt16_toNat (q : Int) {x : Nat} (hx : x < 4) :
    ((packInt16 q x).toNat : Int) = (4 * q + x) % 2 ^ 16 := by
  rw [packInt16, BitVec.toNat_setWidth, shiftLeft_or_eq _ hx, BitVec.toNat_ofInt]
  omega

theorem signExtend_toNat_mod (encoded : BitVec 16) :
    (encoded.signExtend 32).toNat % 4 = encoded.toNat % 4 := by
  have hvalue : (encoded.signExtend 32).toInt = encoded.toInt :=
    BitVec.toInt_signExtend_of_le (by decide)
  rw [BitVec.toInt_eq_toNat_cond, BitVec.toInt_eq_toNat_cond] at hvalue
  split_ifs at hvalue <;> omega

theorem blobSelector_eq (encoded : BitVec 16) : blobSelector encoded = encoded.toNat % 4 := by
  rw [blobSelector, BitVec.toNat_and, show (3#32).toNat = 2 ^ 2 - 1 from rfl,
    Nat.and_two_pow_sub_one_eq_mod]
  exact signExtend_toNat_mod encoded

theorem blobStoredQuotient_eq (encoded : BitVec 16) :
    blobStoredQuotient encoded = encoded.toInt / 4 := by
  rw [blobStoredQuotient, BitVec.toInt_sshiftRight, BitVec.toInt_signExtend_of_le (by decide),
    Int.shiftRight_eq_div_pow]
  rfl

/-- A quotient of 14 bits and a selector of two are read back, whatever the sign. -/
theorem blobSelector_packInt16 (q : Int) {x : Nat} (hx : x < 4) :
    blobSelector (packInt16 q x) = x := by
  have hnat := packInt16_toNat q hx
  rw [blobSelector_eq]
  omega

theorem blobStoredQuotient_packInt16 {q : Int} (hlo : -8192 ≤ q) (hhi : q ≤ 8191) {x : Nat}
    (hx : x < 4) : blobStoredQuotient (packInt16 q x) = q := by
  have hnat := packInt16_toNat q hx
  have hint := BitVec.toInt_eq_toNat_cond (packInt16 q x)
  rw [blobStoredQuotient_eq]
  split_ifs at hint <;> omega

/-! ## The selected scale -/

section Selection

variable (fl : Rat → Rat)

/-- The rounded quotient has 14 bits. -/
def FitsSelector (v : Rat) (x : Nat) : Prop :=
  -8192 ≤ round (fl (v * blobInvScale x)) ∧ round (fl (v * blobInvScale x)) ≤ 8191

instance (v : Rat) (x : Nat) : Decidable (FitsSelector fl v x) :=
  inferInstanceAs (Decidable (_ ∧ _))

theorem encodeWithSelectors_eq {v : Rat}
    (hv : ∀ x < 4, blobQuotient fl v x = some (round (fl (v * blobInvScale x)))) (xs : List Nat)
    (hxs : ∀ x ∈ xs, x < 4) :
    encodeWithSelectors fl v xs = some (match xs.find? (FitsSelector fl v ·) with
      | some x => packInt16 (round (fl (v * blobInvScale x))) x
      | none => packInt16 (clampQuotient (round (fl (v * blobInvScale 3)))) 3) := by
  induction xs with
  | nil =>
    rw [encodeWithSelectors, hv 3 (by decide)]
    rfl
  | cons x xs ih =>
    rw [encodeWithSelectors, hv x (hxs x List.mem_cons_self)]
    change (if FitsSelector fl v x then _ else _) = _
    by_cases hfits : FitsSelector fl v x
    · rw [if_pos hfits, List.find?_cons_of_pos (by simpa using hfits)]
    · rw [if_neg hfits, List.find?_cons_of_neg (by simpa using hfits)]
      exact ih fun y hy => hxs y (List.mem_cons_of_mem x hy)

/-- What a number is encoded to when it can be converted: the smallest selector that fits with the
rounded quotient, or the last selector with the greatest or the least quotient. -/
theorem encodeFloatToInt16_cases {v : Rat}
    (hv : ∀ x < 4, blobQuotient fl v x = some (round (fl (v * blobInvScale x)))) :
    (∃ x < 4, FitsSelector fl v x ∧ (∀ y < x, ¬ FitsSelector fl v y) ∧
      encodeFloatToInt16 fl v = some (packInt16 (round (fl (v * blobInvScale x))) x)) ∨
    ((∀ x < 4, ¬ FitsSelector fl v x) ∧ encodeFloatToInt16 fl v =
      some (packInt16 (clampQuotient (round (fl (v * blobInvScale 3)))) 3)) := by
  have hencode := encodeWithSelectors_eq fl hv (List.range 4) fun x => List.mem_range.mp
  cases hfind : (List.range 4).find? (FitsSelector fl v ·) with
  | some x =>
    rw [hfind] at hencode
    rw [List.find?_range_eq_some] at hfind
    obtain ⟨hfits, hx, hleast⟩ := hfind
    exact Or.inl ⟨x, List.mem_range.mp hx, by simpa using hfits, by simpa using hleast, hencode⟩
  | none =>
    rw [hfind] at hencode
    rw [List.find?_range_eq_none] at hfind
    exact Or.inr ⟨by simpa using hfind, hencode⟩

theorem decodeInt16ToFloat_packInt16 {q : Int} (hlo : -8192 ≤ q) (hhi : q ≤ 8191) {x : Nat}
    (hx : x < 4) : decodeInt16ToFloat fl (packInt16 q x) = fl (q * blobScale fl x) := by
  rw [decodeInt16ToFloat, blobStoredQuotient_packInt16 hlo hhi hx, blobSelector_packInt16 q hx]

end Selection

/-! ## Exact scales -/

section Exact

theorem blobInvScale_pos {x : Nat} (hx : x < 4) : 100 ≤ blobInvScale x := by
  interval_cases x <;> simp [blobInvScale] <;> norm_num

theorem blobInvScale_le {x : Nat} (hx : x < 4) : blobInvScale x ≤ 100000 := by
  interval_cases x <;> simp [blobInvScale] <;> norm_num

theorem blobScale_eq {x : Nat} (hx : x < 4) : blobScale id x = 1 / blobInvScale x := by
  interval_cases x <;> rfl

/-- A scale is a multiple of every finer one. -/
theorem blobScale_mul_blobInvScale {x y : Nat} (hyx : y ≤ x) (hx : x < 4) :
    blobScale id x * blobInvScale y = (10 ^ (x - y) : Int) := by
  interval_cases x <;> interval_cases y <;> norm_num [blobScale, blobInvScale]

theorem fitsSelector_iff (v : Rat) (x : Nat) :
    FitsSelector id v x ↔ -8192.5 < v * blobInvScale x ∧ v * blobInvScale x < 8191.5 := by
  rw [FitsSelector, le_round_iff (by decide), round_le_iff (by decide)]
  norm_num

/-- The greatest scale reaches furthest. -/
theorem exists_fitsSelector_iff (v : Rat) :
    (∃ x < 4, FitsSelector id v x) ↔ -81.925 < v ∧ v < 81.915 := by
  constructor
  · rintro ⟨x, hx, hfits⟩
    rw [fitsSelector_iff] at hfits
    have hscale := blobInvScale_pos hx
    constructor
    · by_contra hle
      have := mul_le_mul_of_nonpos_left hscale (show v ≤ 0 by linarith)
      linarith [hfits.1]
    · by_contra hle
      have := mul_le_mul_of_nonneg_left hscale (show 0 ≤ v by linarith)
      linarith [hfits.2]
  · rintro ⟨hlo, hhi⟩
    refine ⟨3, by decide, (fitsSelector_iff v 3).mpr ?_⟩
    rw [show blobInvScale 3 = 100 from rfl]
    constructor
    · linarith
    · linarith

/-- No conversion leaves the range of `int32_t`. -/
theorem blobQuotient_eq {v : Rat} (hv : |v| ≤ 21474) {x : Nat} (hx : x < 4) :
    blobQuotient id v x = some (round (v * blobInvScale x)) := by
  have habs : |v * blobInvScale x| ≤ 21474 * 100000 := by
    rw [abs_mul, abs_of_pos (lt_of_lt_of_le (by norm_num) (blobInvScale_pos hx))]
    exact mul_le_mul hv (blobInvScale_le hx) (le_trans (by norm_num) (blobInvScale_pos hx))
      (by norm_num)
  obtain ⟨hlo, hhi⟩ := abs_le.mp habs
  refine toInt32_of_mem ?_ ?_
  · rw [le_round_iff (by decide)]
    push_cast
    simp only [id]
    linarith
  · rw [← Int.le_sub_one_iff, round_le_iff (by decide)]
    push_cast
    simp only [id]
    linarith

/-- Decoded numbers are encoded without loss: on the selected scale, which is theirs or a finer one,
they are multiples. -/
theorem encode_decoded {q : Int} (hlo : -8192 ≤ q) (hhi : q ≤ 8191) {x : Nat} (hx : x < 4) :
    (encodeFloatToInt16 id (q * blobScale id x)).map (decodeInt16ToFloat id) =
      some (q * blobScale id x) := by
  have hmultiple : ∀ y ≤ x, round (id (q * blobScale id x * blobInvScale y)) = q * 10 ^ (x - y) := by
    intro y hyx
    rw [id, mul_assoc, blobScale_mul_blobInvScale hyx hx]
    exact_mod_cast round_intCast (K := Rat) (q * 10 ^ (x - y))
  have hown : FitsSelector id (q * blobScale id x) x := by
    rw [FitsSelector, hmultiple x le_rfl, Nat.sub_self, pow_zero, mul_one]
    exact ⟨hlo, hhi⟩
  have hbound := (exists_fitsSelector_iff _).mp ⟨x, hx, hown⟩
  have habs : |(q : Rat) * blobScale id x| ≤ 21474 := abs_le.mpr ⟨by linarith, by linarith⟩
  rcases encodeFloatToInt16_cases id fun y hy => blobQuotient_eq habs hy with
    ⟨y, hy, hfits, hleast, hencode⟩ | ⟨hnone, -⟩
  · have hyx : y ≤ x := not_lt.mp fun hxy => hleast x hxy hown
    rw [hencode, Option.map_some, decodeInt16ToFloat_packInt16 id hfits.1 hfits.2 hy,
      hmultiple y hyx, id]
    push_cast
    have hfiner := blobScale_mul_blobInvScale hyx hx
    push_cast at hfiner
    have hpos := blobInvScale_pos hy
    rw [← hfiner, blobScale_eq hy]
    congr 1
    field_simp
  · exact absurd hown (hnone x hx)

/-- A number, the quotient and the selector it is packed into, and the number that is decoded. -/
structure BlobProjection (v : Rat) (q : Int) (x : Nat) (w : Rat) : Prop where
  encoded : encodeFloatToInt16 id v = some (packInt16 q x)
  selector : blobSelector (packInt16 q x) = x
  quotient : blobStoredQuotient (packInt16 q x) = q
  decoded : decodeInt16ToFloat id (packInt16 q x) = w
  selected : x < 4 ∧ (∀ y < x, ¬ FitsSelector id v y) ∧
    (FitsSelector id v x ∨ x = 3 ∧ ¬ FitsSelector id v x)
  near : -81.925 < v → v < 81.915 → |w - v| ≤ blobScale id x / 2
  above : 81.915 ≤ v → w = 81.91
  below : v ≤ -81.925 → w = -81.92
  stable : (encodeFloatToInt16 id w).map (decodeInt16ToFloat id) = some w

theorem exists_blobProjection {v : Rat} (hv : |v| ≤ 21474) :
    ∃ q x w, BlobProjection v q x w := by
  rcases encodeFloatToInt16_cases id fun y hy => blobQuotient_eq hv hy with
    ⟨x, hx, hfits, hleast, hencode⟩ | ⟨hnone, hencode⟩
  · have hrange := (exists_fitsSelector_iff v).mp ⟨x, hx, hfits⟩
    refine ⟨round (v * blobInvScale x), x, round (v * blobInvScale x) * blobScale id x, hencode,
      blobSelector_packInt16 _ hx, blobStoredQuotient_packInt16 hfits.1 hfits.2 hx,
      decodeInt16ToFloat_packInt16 id hfits.1 hfits.2 hx, ⟨hx, hleast, Or.inl hfits⟩,
      fun _ _ => ?_, fun h => absurd hrange.2 (not_lt.mpr h),
      fun h => absurd hrange.1 (not_lt.mpr h), encode_decoded hfits.1 hfits.2 hx⟩
    have hpos : 0 < blobInvScale x := lt_of_lt_of_le (by norm_num) (blobInvScale_pos hx)
    have heq : (round (v * blobInvScale x) : Rat) * blobScale id x - v =
        (round (v * blobInvScale x) - v * blobInvScale x) * blobScale id x := by
      rw [blobScale_eq hx]
      field_simp
    have hscale : 0 ≤ blobScale id x := by
      rw [blobScale_eq hx]
      exact one_div_nonneg.mpr hpos.le
    rw [heq, abs_mul, abs_of_nonneg hscale]
    linarith [mul_le_mul_of_nonneg_right (abs_round_sub_le (v * blobInvScale x)) hscale]
  · have hrange : ¬ (-81.925 < v ∧ v < 81.915) := by
      rw [← exists_fitsSelector_iff]
      rintro ⟨x, hx, hfits⟩
      exact hnone x hx hfits
    have hselected : 3 < 4 ∧ (∀ y < 3, ¬ FitsSelector id v y) ∧
        (FitsSelector id v 3 ∨ 3 = 3 ∧ ¬ FitsSelector id v 3) :=
      ⟨by decide, fun y hy => hnone y (by omega), Or.inr ⟨rfl, hnone 3 (by decide)⟩⟩
    have hthree : blobInvScale 3 = 100 := rfl
    rcases le_or_gt 81.915 v with hhi | hhi
    · have hround : 8191 < round (id (v * blobInvScale 3)) := by
        rw [lt_round_iff (by decide), hthree, id]
        push_cast
        linarith
      rw [clampQuotient, if_pos hround] at hencode
      refine ⟨8191, 3, 8191 * blobScale id 3, hencode, blobSelector_packInt16 _ (by decide),
        blobStoredQuotient_packInt16 (by decide) (by decide) (by decide),
        decodeInt16ToFloat_packInt16 id (by decide) (by decide) (by decide), hselected,
        fun _ h => absurd hhi (not_le.mpr h), fun _ => ?_, fun h => ?_,
        encode_decoded (by decide) (by decide) (by decide)⟩
      · norm_num [blobScale]
      · linarith
    · have hlo : v ≤ -81.925 := not_lt.mp fun h => hrange ⟨h, hhi⟩
      have hround : round (id (v * blobInvScale 3)) < -8192 := by
        rw [round_lt_iff (by decide), hthree, id]
        push_cast
        linarith
      rw [clampQuotient, if_neg (by omega), if_pos hround] at hencode
      refine ⟨-8192, 3, (-8192 : Int) * blobScale id 3, hencode, blobSelector_packInt16 _ (by decide),
        blobStoredQuotient_packInt16 (by decide) (by decide) (by decide),
        decodeInt16ToFloat_packInt16 id (by decide) (by decide) (by decide), hselected,
        fun h => absurd hlo (not_le.mpr h), fun h => absurd hhi (not_lt.mpr h), fun _ => ?_,
        encode_decoded (by decide) (by decide) (by decide)⟩
      norm_num [blobScale]

end Exact

/-! ## Arrays -/

section Arrays

variable (fl : Rat → Rat)

/-- An `int16_t` in memory, the lower byte first. -/
def bytesOfInt16 (encoded : BitVec 16) : List UInt8 :=
  [⟨encoded.extractLsb' 0 8⟩, ⟨encoded.extractLsb' 8 8⟩]

def int16OfBytes (low high : UInt8) : BitVec 16 := high.toBitVec ++ low.toBitVec

/-- `EncodeFloatArrayToBlob`, the bytes it writes. -/
def encodeFloatArrayToBlob (input : List Rat) : Option (List UInt8) := do
  let encoded ← input.mapM (encodeFloatToInt16 fl)
  some (encoded.flatMap bytesOfInt16)

def blobDimensionCount (blobByteSize : Nat) : Nat := blobByteSize / 2

def decodeBlobToFloatArray (blob : List UInt8) : List Rat :=
  (List.range (blob.length / 2)).map fun i =>
    decodeInt16ToFloat fl (int16OfBytes (blob.getD (2 * i) 0) (blob.getD (2 * i + 1) 0))

theorem int16OfBytes_extract (encoded : BitVec 16) :
    int16OfBytes ⟨encoded.extractLsb' 0 8⟩ ⟨encoded.extractLsb' 8 8⟩ = encoded := by
  apply BitVec.eq_of_getLsbD_eq
  intro i hi
  simp only [int16OfBytes, BitVec.getLsbD_append, BitVec.getLsbD_extractLsb']
  by_cases hlow : i < 8
  · simp [hlow]
  · simp [hlow, show i - 8 < 8 by omega, show 8 + (i - 8) = i by omega]

theorem length_flatMap_bytesOfInt16 (encoded : List (BitVec 16)) :
    (encoded.flatMap bytesOfInt16).length = 2 * encoded.length := by
  induction encoded with
  | nil => rfl
  | cons e encoded ih =>
    rw [List.flatMap_cons, List.length_append, ih, List.length_cons]
    change 2 + _ = _
    ring

/-- Element by element what was written is read back. -/
theorem decodeBlobToFloatArray_flatMap (encoded : List (BitVec 16)) :
    decodeBlobToFloatArray fl (encoded.flatMap bytesOfInt16) =
      encoded.map (decodeInt16ToFloat fl) := by
  rw [decodeBlobToFloatArray, length_flatMap_bytesOfInt16, Nat.mul_div_cancel_left _ two_pos]
  induction encoded with
  | nil => rfl
  | cons e encoded ih =>
    rw [List.length_cons, List.range_succ_eq_map, List.map_cons, List.map_map, List.map_cons, ← ih]
    congr 1
    exact congrArg _ (int16OfBytes_extract e)

theorem mapM_eq_some_of_forall₂ {A B : Type} {f : A → Option B} {as : List A} {bs : List B}
    (h : List.Forall₂ (fun a b => f a = some b) as bs) : as.mapM f = some bs := by
  induction h with
  | nil => rfl
  | cons hab _ ih => rw [List.mapM_cons, hab, ih]; rfl

/-- The elements of an array are projected one by one, and the decoded array is encoded without
loss. -/
theorem encodeFloatArrayToBlob_projects {input : List Rat} (hinput : ∀ v ∈ input, |v| ≤ 21474) :
    ∃ blob, encodeFloatArrayToBlob id input = some blob ∧ blob.length = 2 * input.length ∧
      blobDimensionCount blob.length = input.length ∧
      List.Forall₂ (fun v w => ∃ q x, BlobProjection v q x w) input
        (decodeBlobToFloatArray id blob) ∧
      (encodeFloatArrayToBlob id (decodeBlobToFloatArray id blob)).map
        (decodeBlobToFloatArray id) = some (decodeBlobToFloatArray id blob) := by
  -- the packed numbers, the decoded ones and those packed again
  have helements : ∃ encoded ws again,
      List.Forall₂ (fun v e => encodeFloatToInt16 id v = some e) input encoded ∧
      encoded.map (decodeInt16ToFloat id) = ws ∧
      List.Forall₂ (fun v w => ∃ q x, BlobProjection v q x w) input ws ∧
      List.Forall₂ (fun w e => encodeFloatToInt16 id w = some e) ws again ∧
      again.map (decodeInt16ToFloat id) = ws := by
    induction input with
    | nil => exact ⟨[], [], [], .nil, rfl, .nil, .nil, rfl⟩
    | cons v input ih =>
      obtain ⟨encoded, ws, again, hencoded, hdecoded, hprojected, hagain, hsame⟩ :=
        ih fun u hu => hinput u (List.mem_cons_of_mem v hu)
      obtain ⟨q, x, w, hv⟩ := exists_blobProjection (hinput v List.mem_cons_self)
      obtain ⟨e, he, hw⟩ := Option.map_eq_some_iff.mp hv.stable
      exact ⟨packInt16 q x :: encoded, w :: ws, e :: again, .cons hv.encoded hencoded,
        by rw [List.map_cons, hv.decoded, hdecoded], .cons ⟨q, x, hv⟩ hprojected, .cons he hagain,
        by rw [List.map_cons, hw, hsame]⟩
  obtain ⟨encoded, ws, again, hencoded, hdecoded, hprojected, hagain, hsame⟩ := helements
  have hlength : (encoded.flatMap bytesOfInt16).length = 2 * input.length := by
    rw [length_flatMap_bytesOfInt16, hencoded.length_eq]
  have hws : decodeBlobToFloatArray id (encoded.flatMap bytesOfInt16) = ws := by
    rw [decodeBlobToFloatArray_flatMap, hdecoded]
  refine ⟨encoded.flatMap bytesOfInt16, ?_, hlength, ?_, hws.symm ▸ hprojected, ?_⟩
  · rw [encodeFloatArrayToBlob, mapM_eq_some_of_forall₂ hencoded]
    rfl
  · rw [blobDimensionCount, hlength, Nat.mul_div_cancel_left _ two_pos]
  · rw [hws, encodeFloatArrayToBlob, mapM_eq_some_of_forall₂ hagain]
    exact congrArg some ((decodeBlobToFloatArray_flatMap id again).trans hsame)

/-- The codec with exact scales: packing loses nothing, a number is replaced by the nearest one on
its scale or clamped, and arrays are treated element by element. -/
theorem blobCodec_projects :
    (∀ (q : Int) (x : Nat), -8192 ≤ q → q ≤ 8191 → x < 4 →
      blobStoredQuotient (packInt16 q x) = q ∧ blobSelector (packInt16 q x) = x) ∧
    (∀ v : Rat, |v| ≤ 21474 → ∃ q x w, BlobProjection v q x w) ∧
    ∀ input : List Rat, (∀ v ∈ input, |v| ≤ 21474) → ∃ blob,
      encodeFloatArrayToBlob id input = some blob ∧ blob.length = 2 * input.length ∧
      blobDimensionCount blob.length = input.length ∧
      List.Forall₂ (fun v w => ∃ q x, BlobProjection v q x w) input
        (decodeBlobToFloatArray id blob) ∧
      (encodeFloatArrayToBlob id (decodeBlobToFloatArray id blob)).map
        (decodeBlobToFloatArray id) = some (decodeBlobToFloatArray id blob) := by
  refine ⟨fun q x hlo hhi hx => ?_, fun v hv => exists_blobProjection hv,
    fun input hinput => encodeFloatArrayToBlob_projects hinput⟩
  exact ⟨blobStoredQuotient_packInt16 hlo hhi hx, blobSelector_packInt16 q hx⟩

/-- One component on the finest scale, one on the second, one that is clamped. -/
theorem blobCodec_projects_three_components : ∃ blob,
    encodeFloatArrayToBlob id [1 / 1000, -1 / 2, 100] = some blob ∧
    blobDimensionCount blob.length = 3 := by
  obtain ⟨blob, hblob, -, hcount, -⟩ := blobCodec_projects.2.2 [1 / 1000, -1 / 2, 100] (by
    intro v hv
    simp only [List.mem_cons, List.not_mem_nil, or_false] at hv
    rcases hv with rfl | rfl | rfl <;> norm_num [abs_le])
  exact ⟨blob, hblob, hcount⟩

end Arrays

/-! ## The SQL functions -/

section Functions

variable (fl : Rat → Rat)

/-- The rows of a list vector: its entries, null or an offset and a length, read from the child. -/
def listRows {A : Type} (entries : List (Option (Nat × Nat))) (child : List A) :
    List (Option (List A)) :=
  entries.map (Option.map fun entry => (child.drop entry.1).take entry.2)

/-- `EncodeBlobFunction`: one blob for each row that is not null. -/
def encodeBlobFunction (entries : List (Option (Nat × Nat))) (child : List Rat) :
    Option (List (Option (List UInt8))) :=
  (listRows entries child).mapM fun row => match row with
    | none => some none
    | some row => (encodeFloatArrayToBlob fl row).map some

/-- `DecodeBlobFunction`: the entries of the result and its child, filled row by row. -/
def decodeBlobFunction (blobs : List (Option (List UInt8))) :
    List (Option (Nat × Nat)) × List Rat :=
  blobs.foldl (fun (entries, child) blob => match blob with
    | none => (entries ++ [none], child)
    | some blob => (entries ++ [some (child.length, blobDimensionCount blob.length)],
        child ++ decodeBlobToFloatArray fl blob)) ([], [])

/-- Rows that end within the child are not changed by what is appended to it. -/
theorem listRows_append {A : Type} {entries : List (Option (Nat × Nat))} {child : List A}
    (h : ∀ entry, some entry ∈ entries → entry.1 + entry.2 ≤ child.length) (more : List A) :
    listRows entries (child ++ more) = listRows entries child := by
  refine List.map_congr_left fun entry hentry => ?_
  cases entry with
  | none => rfl
  | some entry =>
    have hle := h entry hentry
    simp only [Option.map_some, Option.some.injEq]
    rw [List.drop_append_of_le_length (by omega), List.take_append_of_le_length]
    rw [List.length_drop]
    omega

/-- Every row of the result is its own blob, decoded. -/
theorem decodeBlobFunction_rows (blobs : List (Option (List UInt8))) :
    listRows (decodeBlobFunction fl blobs).1 (decodeBlobFunction fl blobs).2 =
        blobs.map (Option.map (decodeBlobToFloatArray fl)) ∧
      ∀ entry, some entry ∈ (decodeBlobFunction fl blobs).1 →
        entry.1 + entry.2 ≤ (decodeBlobFunction fl blobs).2.length := by
  induction blobs using List.reverseRecOn with
  | nil => exact ⟨rfl, fun entry h => nomatch h⟩
  | append_singleton blobs blob ih =>
    obtain ⟨hrows, hends⟩ := ih
    rw [decodeBlobFunction, List.foldl_append, List.foldl_cons, List.foldl_nil,
      ← decodeBlobFunction]
    generalize decodeBlobFunction fl blobs = result at hrows hends ⊢
    obtain ⟨entries, child⟩ := result
    cases blob with
    | none =>
      refine ⟨?_, fun entry h => hends entry (by simpa using h)⟩
      rw [listRows, List.map_append, List.map_append, ← hrows]
      rfl
    | some blob =>
      have hlength : (decodeBlobToFloatArray fl blob).length = blobDimensionCount blob.length := by
        rw [decodeBlobToFloatArray, List.length_map, List.length_range, blobDimensionCount]
      constructor
      · rw [List.map_append, ← hrows, ← listRows_append hends (decodeBlobToFloatArray fl blob),
          listRows, List.map_append]
        simp only [List.map_cons, List.map_nil, Option.map_some, List.drop_left, ← hlength,
          List.take_length, listRows]
      · intro entry h
        rw [List.length_append]
        rcases List.mem_append.mp h with h | h
        · exact (hends entry h).trans (Nat.le_add_right _ _)
        · obtain rfl : entry = (child.length, blobDimensionCount blob.length) := by simpa using h
          exact (congrArg (child.length + ·) hlength).ge

/-- Encoding a list vector and decoding the blobs projects the elements of every row; null rows stay
null. -/
theorem decodeBlobFunction_encodeBlobFunction (entries : List (Option (Nat × Nat)))
    {child : List Rat} (hchild : ∀ v ∈ child, |v| ≤ 21474) :
    ∃ blobs, encodeBlobFunction id entries child = some blobs ∧
      List.Forall₂ (Option.Rel (List.Forall₂ fun v w => ∃ q x, BlobProjection v q x w))
        (listRows entries child)
        (listRows (decodeBlobFunction id blobs).1 (decodeBlobFunction id blobs).2) := by
  have hrows : ∃ blobs,
      List.Forall₂ (fun row blob => (match row with
        | none => some none
        | some row => (encodeFloatArrayToBlob id row).map some) = some blob)
        (listRows entries child) blobs ∧
      List.Forall₂ (Option.Rel (List.Forall₂ fun v w => ∃ q x, BlobProjection v q x w))
        (listRows entries child) (blobs.map (Option.map (decodeBlobToFloatArray id))) := by
    induction entries with
    | nil => exact ⟨[], .nil, .nil⟩
    | cons entry entries ih =>
      obtain ⟨blobs, hencoded, hprojected⟩ := ih
      cases entry with
      | none => exact ⟨none :: blobs, .cons rfl hencoded, .cons .none hprojected⟩
      | some entry =>
        have hvalues : ∀ v ∈ (child.drop entry.1).take entry.2, |v| ≤ 21474 := fun v hv =>
          hchild v (List.mem_of_mem_drop (List.mem_of_mem_take hv))
        obtain ⟨blob, hblob, -, -, hrow, -⟩ := encodeFloatArrayToBlob_projects hvalues
        exact ⟨some blob :: blobs, .cons (congrArg (Option.map some) hblob) hencoded,
          .cons (.some hrow) hprojected⟩
  obtain ⟨blobs, hencoded, hprojected⟩ := hrows
  refine ⟨blobs, mapM_eq_some_of_forall₂ hencoded, ?_⟩
  rw [(decodeBlobFunction_rows id blobs).1]
  exact hprojected

end Functions

end PDXearch
