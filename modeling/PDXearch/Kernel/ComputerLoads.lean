import PDXearch.Kernel.Accumulations

/-!
# What the distance computers load

`DistanceComputer` is one of four computers, chosen by the instruction set it is compiled for. They
add up the same squares but load them differently: the scalar one element by element, the others a
register at a time. A call is here the list of its loads, in the order of its loops.

Every element that the accumulations of a U8 call read is loaded on every platform
(`verticalU8Loads_cover`). NEON loads more: eight bytes of the query for each group of four
dimensions, of which it uses four. The other loads stay within the query and the cluster
(`verticalU8Loads_within`, `horizontalLoads_within`).
-/

namespace PDXearch

/-- The instruction sets of `base_computers.hpp`. -/
inductive Platform where
  | scalar
  | neon
  | avx2
  | avx512
  deriving DecidableEq

/-- `count` consecutive elements of the query or of the data, from `offset` on. -/
inductive Load where
  | query (offset count : Nat)
  | data (offset count : Nat)
  deriving DecidableEq

/-- The load stays within a query of `numDimensions` elements and a cluster of `size`. -/
def Load.Within (numDimensions size : Nat) : Load → Prop
  | .query offset count => offset + count ≤ numDimensions
  | .data offset count => offset + count ≤ size

/-- An element of the query and the element of the data it is compared with. -/
def elementLoads (r : Nat × Nat) : List Load := [.query r.1 1, .data r.2 1]

/-! ## Vertical -/

/-- `Vertical` of an F32 computer, the same loops on every platform. -/
def verticalF32Loads (skipPruned : Bool) (pruningPositions : Nat → Nat)
    (nVectors totalVectors startDimension endDimension : Nat) : List Load :=
  (verticalF32Accumulations (visited skipPruned pruningPositions nVectors) totalVectors
    startDimension endDimension).flatMap fun acc => acc.reads.flatMap elementLoads

/-- The registers of data of a vector loop: `steps` of them, each with a group's four dimensions of
`width` vectors, from vector `first` on. -/
def registerLoads (offsetToDimensionStart first width steps : Nat) : List Load :=
  (List.range steps).map fun t =>
    .data (offsetToDimensionStart + (first + width * t) * 4) (4 * width)

/-- What is loaded for a group before its scalar loop, and the number of vectors that leaves to
skip there. -/
def Platform.groupRegisters (platform : Platform) (skipPruned : Bool)
    (nVectors dimensionIdx offsetToDimensionStart : Nat) : List Load × Nat :=
  match platform with
  | .scalar => ([], 0)
  | .neon =>
    -- `vld1_u8(&query[dimension_idx])` stands before `if constexpr (!SKIP_PRUNED)`
    let vals := Load.query dimensionIdx 8
    if skipPruned then ([vals], 0)
    else
      let steps := nVectors / 4
      (vals :: registerLoads offsetToDimensionStart 0 4 steps, 4 * steps)
  | .avx2 =>
    if skipPruned then ([], 0)
    else
      -- `query_grouped[dimension_idx / 4]`
      let queryValue := Load.query (4 * (dimensionIdx / 4)) 4
      let steps := nVectors / 8
      (queryValue :: registerLoads offsetToDimensionStart 0 8 steps, 8 * steps)
  | .avx512 =>
    if skipPruned then ([], 0)
    else
      let queryValue := Load.query (4 * (dimensionIdx / 4)) 4
      let steps := nVectors / 16
      let ySteps := (nVectors - 16 * steps) / 8
      (queryValue :: (registerLoads offsetToDimensionStart 0 16 steps ++
        registerLoads offsetToDimensionStart (16 * steps) 8 ySteps), 16 * steps + 8 * ySteps)

/-- The scalar loops over one group of dimensions. -/
def groupLoads (vectors : List Nat) (dimensionIdx offsetToDimensionStart : Nat) : List Load :=
  vectors.flatMap fun vectorIdx => (List.range u8InterleaveSize).flatMap fun k =>
    elementLoads (dimensionIdx + k, offsetToDimensionStart + vectorIdx * 4 + k)

/-- The scalar loops over the dimensions that fill no group. -/
def tailLoads (vectors : List Nat) (totalVectors dimIdx endDimension : Nat) : List Load :=
  if dimIdx < endDimension then
    let remaining := endDimension - dimIdx
    vectors.flatMap fun vectorIdx => (List.range remaining).flatMap fun k =>
      elementLoads (dimIdx + k, dimIdx * totalVectors + vectorIdx * remaining + k)
  else []

/-- `Vertical` of the platform's U8 computer. -/
def Platform.verticalU8Loads (platform : Platform) (skipPruned : Bool)
    (pruningPositions : Nat → Nat) (nVectors totalVectors startDimension endDimension : Nat) :
    List Load :=
  let vectors := visited skipPruned pruningPositions nVectors
  let groups := (endDimension - startDimension) / u8InterleaveSize
  ((List.range groups).flatMap fun step =>
    let dimensionIdx := startDimension + u8InterleaveSize * step
    let offsetToDimensionStart := dimensionIdx * totalVectors
    let (registers, taken) :=
      platform.groupRegisters skipPruned nVectors dimensionIdx offsetToDimensionStart
    registers ++ groupLoads (vectors.drop taken) dimensionIdx offsetToDimensionStart) ++
  tailLoads vectors totalVectors (startDimension + u8InterleaveSize * groups) endDimension

/-! ## Horizontal -/

/-- The elements in a register of `Horizontal`; the scalar computer takes one at a time. -/
def Platform.widthF32 : Platform → Nat
  | .scalar => 1
  | .neon => 4
  | .avx2 => 8
  | .avx512 => 16

def Platform.widthU8 : Platform → Nat
  | .scalar => 1
  | .neon => 16
  | .avx2 => 32
  | .avx512 => 64

/-- `Horizontal`: full registers of both vectors, then what is left, on AVX-512 by one masked load
and else by a scalar loop. -/
def Platform.horizontalLoads (platform : Platform) (width offsetQuery dataPos numDimensions : Nat) :
    List Load :=
  let both (i count : Nat) : List Load :=
    [.query (offsetQuery + i) count, .data (dataPos + i) count]
  let steps := numDimensions / width
  (List.range steps).flatMap (fun step => both (width * step) width) ++
    if platform = .avx512 then
      if width * steps < numDimensions then both (width * steps) (numDimensions - width * steps)
      else []
    else ((List.range numDimensions).drop (width * steps)).flatMap fun i => both i 1

/-- The loads of `DistanceComputer<L2SQ, Q>`: of `Vertical` and `VerticalPruning` from the flag
`SKIP_PRUNED`, the positions array and the numbers of the call, of `Horizontal` from the offsets of
its two vectors and their length. -/
structure Computer where
  vertical : Bool → (Nat → Nat) → Nat → Nat → Nat → Nat → List Load
  horizontal : Nat → Nat → Nat → List Load

/-- `DistanceComputer<L2SQ, F32>` -/
def Platform.computerF32 (platform : Platform) : Computer where
  vertical := verticalF32Loads
  horizontal := platform.horizontalLoads platform.widthF32

/-- `DistanceComputer<L2SQ, U8>` -/
def Platform.computerU8 (platform : Platform) : Computer where
  vertical := platform.verticalU8Loads
  horizontal := platform.horizontalLoads platform.widthU8

/-! ## Every element is loaded -/

/-- The loads hold the query's element `r.1` and the data's element `r.2`. -/
def Loaded (loads : List Load) (r : Nat × Nat) : Prop :=
  (∃ offset count, Load.query offset count ∈ loads ∧ offset ≤ r.1 ∧ r.1 < offset + count) ∧
    ∃ offset count, Load.data offset count ∈ loads ∧ offset ≤ r.2 ∧ r.2 < offset + count

theorem Loaded.mono {loads loads' : List Load} {r : Nat × Nat} (h : Loaded loads r)
    (hsub : loads ⊆ loads') : Loaded loads' r := by
  obtain ⟨⟨o, c, hmem, hquery⟩, o', c', hmem', hdata⟩ := h
  exact ⟨⟨o, c, hsub hmem, hquery⟩, o', c', hsub hmem', hdata⟩

theorem loaded_elementLoads (r : Nat × Nat) : Loaded (elementLoads r) r :=
  ⟨⟨r.1, 1, by simp [elementLoads], le_rfl, Nat.lt_succ_self _⟩,
    r.2, 1, by simp [elementLoads], le_rfl, Nat.lt_succ_self _⟩

/-- One of a number of registers holds the dimensions of a vector that they are loaded for. -/
theorem exists_registerLoads (offset : Nat) {first width steps i k : Nat} (hfirst : first ≤ i)
    (hi : i < first + width * steps) (hk : k < 4) :
    ∃ o c, Load.data o c ∈ registerLoads offset first width steps ∧
      o ≤ offset + i * 4 + k ∧ offset + i * 4 + k < o + c := by
  have hwidth : 0 < width := by
    rcases Nat.eq_zero_or_pos width with rfl | hpos
    · omega
    · exact hpos
  have hdiv := Nat.div_add_mod (i - first) width
  have hmod := Nat.mod_lt (i - first) hwidth
  have hstep : (i - first) / width < steps :=
    (Nat.div_lt_iff_lt_mul hwidth).mpr (by rw [Nat.mul_comm]; omega)
  refine ⟨_, _, List.mem_map_of_mem (List.mem_range.mpr hstep), ?_, ?_⟩
  · omega
  · omega

theorem loaded_groupLoads {vectors : List Nat} {d i k : Nat} (offset : Nat) (hi : i ∈ vectors)
    (hk : k < 4) : Loaded (groupLoads vectors d offset) (d + k, offset + i * 4 + k) := by
  refine (loaded_elementLoads _).mono fun load hload => ?_
  exact List.mem_flatMap.mpr ⟨i, hi, List.mem_flatMap.mpr ⟨k, List.mem_range.mpr hk, hload⟩⟩

/-- A load of the query that holds a group, before the loads of the data. -/
theorem loaded_cons_query {loads : List Load} {o c d k e : Nat} (hod : o ≤ d) (hdo : d + 4 ≤ o + c)
    (hk : k < 4) (hdata : ∃ o' c', Load.data o' c' ∈ loads ∧ o' ≤ e ∧ e < o' + c') :
    Loaded (.query o c :: loads) (d + k, e) := by
  obtain ⟨o', c', hmem, hin⟩ := hdata
  exact ⟨⟨o, c, List.mem_cons_self, by simp only; omega, by simp only; omega⟩,
    o', c', List.mem_cons_of_mem _ hmem, hin⟩

/-- The vectors that the registers take are held by them. -/
theorem loaded_groupRegisters (platform : Platform) {m d i k : Nat} (offset : Nat) (hd : 4 ∣ d)
    (hk : k < 4) (hi : i < (platform.groupRegisters false m d offset).2) :
    Loaded (platform.groupRegisters false m d offset).1 (d + k, offset + i * 4 + k) := by
  cases platform with
  | scalar => exact absurd hi (Nat.not_lt_zero i)
  | neon =>
    refine loaded_cons_query le_rfl (by omega) hk (exists_registerLoads _ (Nat.zero_le i) ?_ hk)
    rw [Nat.zero_add]
    exact hi
  | avx2 =>
    refine loaded_cons_query (by omega) (by omega) hk
      (exists_registerLoads _ (Nat.zero_le i) ?_ hk)
    rw [Nat.zero_add]
    exact hi
  | avx512 =>
    refine loaded_cons_query (by omega) (by omega) hk ?_
    by_cases hfirst : i < 16 * (m / 16)
    · obtain ⟨o, c, hmem, hdata⟩ := exists_registerLoads offset (Nat.zero_le i)
        (by rw [Nat.zero_add]; exact hfirst) hk
      exact ⟨o, c, List.mem_append_left _ hmem, hdata⟩
    · obtain ⟨o, c, hmem, hdata⟩ := exists_registerLoads offset (Nat.le_of_not_lt hfirst) hi hk
      exact ⟨o, c, List.mem_append_right _ hmem, hdata⟩

/-- No registers of data are loaded for the vectors of a positions array. -/
theorem groupRegisters_skipPruned (platform : Platform) (m d offset : Nat) :
    (platform.groupRegisters true m d offset).2 = 0 := by
  cases platform <;> rfl

/-- For a group, the registers and the scalar loop load the four dimensions of every vector. -/
theorem group_loaded (platform : Platform) (skipPruned : Bool) (positions : Nat → Nat)
    {m d i k : Nat} (offset : Nat) (hd : 4 ∣ d) (hi : i ∈ visited skipPruned positions m)
    (hk : k < 4) :
    let registers := platform.groupRegisters skipPruned m d offset
    Loaded (registers.1 ++ groupLoads ((visited skipPruned positions m).drop registers.2) d offset)
      (d + k, offset + i * 4 + k) := by
  cases skipPruned with
  | true =>
    refine (loaded_groupLoads offset ?_ hk).mono (List.subset_append_right _ _)
    rw [groupRegisters_skipPruned, List.drop_zero]
    exact hi
  | false =>
    rw [visited_false] at hi ⊢
    by_cases htaken : i < (platform.groupRegisters false m d offset).2
    · exact (loaded_groupRegisters platform offset hd hk htaken).mono (List.subset_append_left _ _)
    · -- a vector that the registers do not take is left to the scalar loop
      refine (loaded_groupLoads offset ?_ hk).mono (List.subset_append_right _ _)
      have him := List.mem_range.mp hi
      rw [List.range_eq_range', List.drop_range', List.mem_range']
      exact ⟨i - (platform.groupRegisters false m d offset).2, by omega, by omega⟩

/-- On every platform a U8 call loads what the accumulations of the scalar computer read. -/
theorem verticalU8Loads_cover (platform : Platform) {skipPruned : Bool} {positions : Nat → Nat}
    {m n a b : Nat} (ha : 4 ∣ a) {acc : Accumulation}
    (hacc : acc ∈ verticalU8Accumulations (visited skipPruned positions m) n a b) {r : Nat × Nat}
    (hr : r ∈ acc.reads) : Loaded (platform.verticalU8Loads skipPruned positions m n a b) r := by
  rcases List.mem_append.mp hacc with hgroups | htail
  · obtain ⟨step, hstep, hmem⟩ := List.mem_flatMap.mp hgroups
    obtain ⟨i, hi, rfl⟩ := List.mem_map.mp hmem
    obtain ⟨k, hk, rfl⟩ := List.mem_map.mp hr
    refine (group_loaded platform skipPruned positions ((a + 4 * step) * n)
      (Nat.dvd_add ha (Nat.dvd_mul_right _ _)) hi (List.mem_range.mp hk)).mono fun load hload => ?_
    exact List.mem_append_left _ (List.mem_flatMap.mpr ⟨step, hstep, hload⟩)
  · split_ifs at htail with hlt
    · obtain ⟨i, hi, hmem⟩ := List.mem_flatMap.mp htail
      obtain ⟨k, hk, rfl⟩ := List.mem_map.mp hmem
      obtain rfl := List.mem_singleton.mp hr
      refine (loaded_elementLoads _).mono fun load hload => List.mem_append_right _ ?_
      rw [tailLoads, if_pos hlt]
      exact List.mem_flatMap.mpr ⟨i, hi, List.mem_flatMap.mpr ⟨k, hk, hload⟩⟩
    · cases htail

/-! ## Ranges -/

/-- Both loads of an element within its arrays. -/
theorem elementLoads_within {d o numDimensions size : Nat} (hd : d < numDimensions)
    (ho : o < size) : ∀ load ∈ elementLoads (d, o), load.Within numDimensions size := by
  intro load hload
  rcases List.mem_cons.mp hload with rfl | hload
  · exact hd
  · obtain rfl := List.mem_singleton.mp hload
    exact ho

/-- A range of vertical dimensions of a cluster of `n` vectors. -/
theorem vertical_cells_le {n d v numDimensions : Nat} (hd : d ≤ v) (hv : v ≤ numDimensions) :
    d * n ≤ n * numDimensions := by
  rw [Nat.mul_comm]
  exact Nat.mul_le_mul_left n (hd.trans hv)

theorem verticalF32Loads_within {skip : Bool} {positions : Nat → Nat} {m n a b v D : Nat}
    (hab : Aligned v a b) (hv : v ≤ D) (hlt : ∀ i ∈ visited skip positions m, i < n) :
    ∀ load ∈ verticalF32Loads skip positions m n a b, load.Within D (n * D) := by
  intro load hload
  obtain ⟨acc, hacc, hmem⟩ := List.mem_flatMap.mp hload
  obtain ⟨⟨d, o⟩, hr, hmem⟩ := List.mem_flatMap.mp hmem
  obtain ⟨hi, -, hdb, ho⟩ := verticalF32_reads hacc hr
  have hbv := hab.2.2.1
  have hrow : d * n + acc.vectorIdx < v * n := row_lt (by simp only at hdb; omega) (hlt _ hi)
  have hcells := vertical_cells_le (n := n) (le_refl v) hv
  simp only at hdb ho
  exact elementLoads_within (by omega) (by omega) load hmem

/-- Registers of vectors of the cluster, for a group of four of its dimensions. -/
theorem registerLoads_within {first width steps m n d D : Nat} (hfit : first + width * steps ≤ m)
    (hm : m ≤ n) (hcells : d * n + 4 * n ≤ n * D) :
    ∀ load ∈ registerLoads (d * n) first width steps, load.Within D (n * D) := by
  intro load hload
  obtain ⟨t, ht, rfl⟩ := List.mem_map.mp hload
  have hstep : width * (t + 1) ≤ width * steps :=
    Nat.mul_le_mul_left width (List.mem_range.mp ht)
  rw [Nat.mul_succ] at hstep
  show d * n + (first + width * t) * 4 + 4 * width ≤ n * D
  omega

/-- The registers of a group, when the four dimensions after a group's are still the query's on
NEON. -/
theorem groupRegisters_within {platform : Platform} {skip : Bool} {m n d v D : Nat} (hd : 4 ∣ d)
    (hdv : d + 4 ≤ v) (hv : v ≤ D) (hneon : platform = .neon → v + 4 ≤ D)
    (hm : skip = false → m ≤ n) :
    ∀ load ∈ (platform.groupRegisters skip m d (d * n)).1, load.Within D (n * D) := by
  have hcells : (d + 4) * n ≤ n * D := vertical_cells_le hdv hv
  rw [Nat.add_mul] at hcells
  intro load hload
  cases skip with
  | true =>
    cases platform with
    | neon =>
      obtain rfl := List.mem_singleton.mp hload
      have hroom := hneon rfl
      show d + 8 ≤ D
      omega
    | scalar => cases hload
    | avx2 => cases hload
    | avx512 => cases hload
  | false =>
    cases platform with
    | scalar => cases hload
    | neon =>
      rcases List.mem_cons.mp hload with rfl | hload
      · have hroom := hneon rfl
        show d + 8 ≤ D
        omega
      · exact registerLoads_within (by omega) (hm rfl) hcells load hload
    | avx2 =>
      rcases List.mem_cons.mp hload with rfl | hload
      · show 4 * (d / 4) + 4 ≤ D
        omega
      · exact registerLoads_within (by omega) (hm rfl) hcells load hload
    | avx512 =>
      rcases List.mem_cons.mp hload with rfl | hload
      · show 4 * (d / 4) + 4 ≤ D
        omega
      · rcases List.mem_append.mp hload with hload | hload
        · exact registerLoads_within (by omega) (hm rfl) hcells load hload
        · exact registerLoads_within (by omega) (hm rfl) hcells load hload

/-- The slots that a pass over all of them visits are slots of the cluster. -/
theorem le_of_visited_false {positions : Nat → Nat} {m n : Nat}
    (hlt : ∀ i ∈ visited false positions m, i < n) : m ≤ n := by
  rw [visited_false] at hlt
  by_contra hnot
  exact absurd (hlt n (List.mem_range.mpr (Nat.lt_of_not_le hnot))) (Nat.lt_irrefl n)

/-- A U8 call on an aligned range, when on NEON the query has four dimensions after a group. -/
theorem verticalU8Loads_within {platform : Platform} {skip : Bool} {positions : Nat → Nat}
    {m n a b v D : Nat} (hab : Aligned v a b) (hv : v ≤ D)
    (hneon : platform = .neon → 4 ≤ v → v + 4 ≤ D)
    (hlt : ∀ i ∈ visited skip positions m, i < n) :
    ∀ load ∈ platform.verticalU8Loads skip positions m n a b, load.Within D (n * D) := by
  obtain ⟨ha, hle, hbv, -⟩ := hab
  have hcells := vertical_cells_le (n := n) (le_refl v) hv
  intro load hload
  simp only [Platform.verticalU8Loads, u8InterleaveSize] at hload
  rcases List.mem_append.mp hload with hgroups | htail
  · obtain ⟨step, hstep, hmem⟩ := List.mem_flatMap.mp hgroups
    have hstep := List.mem_range.mp hstep
    have hgroup : a + 4 * step + 4 ≤ v := by omega
    rcases List.mem_append.mp hmem with hregister | hscalar
    · refine groupRegisters_within (Nat.dvd_add ha (Nat.dvd_mul_right _ _)) hgroup hv
        (fun hplatform => hneon hplatform (by omega)) (fun hskip => ?_) load hregister
      subst hskip
      exact le_of_visited_false hlt
    · obtain ⟨i, hi, hmem⟩ := List.mem_flatMap.mp hscalar
      obtain ⟨k, hk, hmem⟩ := List.mem_flatMap.mp hmem
      have hk := List.mem_range.mp hk
      simp only [u8InterleaveSize] at hk
      have hrow := row_lt (hlt i (List.mem_of_mem_drop hi)) hk
      have hcells' := vertical_cells_le (n := n) hgroup hv
      rw [Nat.add_mul] at hcells'
      exact elementLoads_within (by omega) (by omega) load hmem
  · rw [tailLoads] at htail
    split_ifs at htail with hrest
    · obtain ⟨i, hi, hmem⟩ := List.mem_flatMap.mp htail
      obtain ⟨k, hk, hmem⟩ := List.mem_flatMap.mp hmem
      have hk := List.mem_range.mp hk
      have hrow := row_lt (hlt i hi) hk
      have hcells' : (a + 4 * ((b - a) / 4) + (b - (a + 4 * ((b - a) / 4)))) * n ≤ n * D :=
        vertical_cells_le (by omega) hv
      rw [Nat.add_mul, Nat.mul_comm (b - _) n] at hcells'
      exact elementLoads_within (by omega) (by omega) load hmem
    · cases htail

/-- The loads of a horizontal call are those of its vectors. -/
theorem horizontalLoads_within {platform : Platform}
    {width offsetQuery dataPos numDimensions D size : Nat}
    (hquery : offsetQuery + numDimensions ≤ D) (hdata : dataPos + numDimensions ≤ size) :
    ∀ load ∈ platform.horizontalLoads width offsetQuery dataPos numDimensions,
      load.Within D size := by
  have hboth : ∀ {i count : Nat}, i + count ≤ numDimensions →
      ∀ load ∈ ([.query (offsetQuery + i) count, .data (dataPos + i) count] : List Load),
        load.Within D size := by
    intro i count hfit load hload
    rcases List.mem_cons.mp hload with rfl | hload
    · show offsetQuery + i + count ≤ D
      omega
    · obtain rfl := List.mem_singleton.mp hload
      show dataPos + i + count ≤ size
      omega
  have hsteps := Nat.mul_div_le numDimensions width
  intro load hload
  rcases List.mem_append.mp hload with hfull | hrest
  · obtain ⟨step, hstep, hmem⟩ := List.mem_flatMap.mp hfull
    have hstep : width * (step + 1) ≤ width * (numDimensions / width) :=
      Nat.mul_le_mul_left width (List.mem_range.mp hstep)
    rw [Nat.mul_succ] at hstep
    exact hboth (by omega) load hmem
  · split_ifs at hrest with havx hlt
    · exact hboth (by omega) load hrest
    · cases hrest
    · obtain ⟨i, hi, hmem⟩ := List.mem_flatMap.mp hrest
      have hi := List.mem_range.mp (List.mem_of_mem_drop hi)
      exact hboth (by omega) load hmem

/-- On NEON the load for a call's last group reaches four dimensions past it. -/
theorem mem_verticalU8Loads_neon {skip : Bool} {positions : Nat → Nat} {m n a b g : Nat}
    (ha : 4 ∣ a) (hg : 4 ∣ g) (hag : a ≤ g) (hgb : g + 4 ≤ b) :
    Load.query g 8 ∈ Platform.neon.verticalU8Loads skip positions m n a b := by
  have hstep : (g - a) / 4 < (b - a) / 4 := by omega
  have hdim : a + 4 * ((g - a) / 4) = g := by omega
  refine List.mem_append_left _ (List.mem_flatMap.mpr
    ⟨(g - a) / 4, List.mem_range.mpr hstep, List.mem_append_left _ ?_⟩)
  simp only [u8InterleaveSize, hdim]
  cases skip with
  | true => exact List.mem_cons_self
  | false => exact List.mem_cons_self

end PDXearch
