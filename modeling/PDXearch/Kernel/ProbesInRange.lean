import PDXearch.Kernel.Wrapping

/-!
# Which computers stay in range

On every platform the accesses of F32 probes are in range, and so are those of U8 probes of an index
with fewer than four dimensions or with a horizontal part. Without a horizontal part the query ends
with the last group or less than a group after it, and the NEON load for this group, eight bytes,
reads past its end.

A group is read only when some call reaches it. With the greatest 32-bit number as every threshold
no vector could be pruned, so that the loop of `Warmup` goes through all vertical dimensions
(`Searcher.warmupLoopAccesses_reaches`).
-/

namespace PDXearch

open Lib Client

/-! ## The split -/

theorem horizontalDimensions_of_lt {numDimensions : Nat} (hlt : numDimensions < 128) :
    (getPDXDimensionSplit numDimensions).horizontalDimensions = 0 := by
  simp only [getPDXDimensionSplit, hDimSize, apply_ite PDXDimensionSplit.horizontalDimensions]
  split_ifs <;> omega

theorem hDimSize_le_horizontalDimensions {numDimensions : Nat} (hle : 128 ≤ numDimensions) :
    hDimSize ≤ (getPDXDimensionSplit numDimensions).horizontalDimensions := by
  simp only [getPDXDimensionSplit, hDimSize, apply_ite PDXDimensionSplit.horizontalDimensions]
  split_ifs <;> omega

/-! ## A run that reaches every group -/

/-- Every threshold read is answered alike. -/
def constantThreshold {D : Type} (threshold : D) : (access : Access D) → access.Answer
  | .threshold _ => threshold
  | .fetchingSize _ => ()
  | .vertical .. => ()
  | .horizontal .. => ()
  | .assertion _ => ()

theorem evaluatePruningPredicateScalar_of_lt {D : Type} [LinearOrder D] {n : Nat}
    {distances : Nat → D} {threshold : D} (hlt : ∀ i < n, distances i < threshold) :
    evaluatePruningPredicateScalar 0 n distances threshold = 0 := by
  refine foldl_range_induction (P := fun _ count => count = 0) rfl ?_
  rintro i count hi rfl
  rw [if_neg (hlt i hi).not_ge]

namespace Searcher

variable {K E D : Type} [LinearOrder D] {S : Searcher K E D} {query data : Nat → E} {n v h : Nat}
  {P : Nat → D → Prop} {threshold : D}

/-- As long as no vector could be pruned, the loop of `Warmup` goes on to the group at `g`. -/
theorem warmupLoopAccesses_reaches (hd : HasDims S v h)
    (hp : Bounded S.pdxData.quantization query data n P)
    (hthreshold : ∀ c ≤ v, ∀ x, P c x → x < threshold) {tuples fuel idx g : Nat}
    {s : ProbeState D} (htuples : 0 < tuples) (hs : Aligned v 0 s.currentDimensionIdx)
    (hsum : v ≤ s.currentDimensionIdx + (dimensionsFetchingSizes.drop idx).sum)
    (hfuel : v - s.currentDimensionIdx < fuel)
    (hdist : ∀ i < n, P s.currentDimensionIdx (s.pruningDistances i))
    (hg : 4 ∣ g) (hsg : s.currentDimensionIdx ≤ g) (hgv : g + 4 ≤ v)
    {tr : List (Event (Access D) Access.Answer)} {r : Option (ProbeState D)}
    (hrun : (S.warmupLoopAccesses query data n tuples fuel idx 0 s).Runs tr r)
    (hanswers : ∀ e ∈ tr, e.2 = constantThreshold threshold e.1) :
    ∃ a b distances positions, (⟨.vertical false n a b distances positions, ()⟩ :
      Event (Access D) Access.Answer) ∈ tr ∧ 4 ∣ a ∧ a ≤ g ∧ g + 4 ≤ b := by
  induction fuel generalizing idx s tr with
  | zero => omega
  | succ fuel ih =>
    rw [warmupLoopAccesses, hd.vertical, if_pos ⟨htuples, by omega⟩] at hrun
    obtain ⟨hidx, hdrop⟩ := drop_fetchingSizes (show s.currentDimensionIdx < v by omega) hsum
    have hmem : dimensionsFetchingSizes.getD idx 0 ∈ dimensionsFetchingSizes := by
      rw [List.getD_eq_getElem _ _ hidx]
      exact List.getElem_mem hidx
    have hpos := fetchingSizes_pos _ hmem
    have hdvd := allFetchingSizesMultipleOfU8InterleaveSize _ hmem
    rw [hdrop, List.sum_cons] at hsum
    generalize dimensionsFetchingSizes.getD idx 0 = size at *
    simp only [u8InterleaveSize] at hdvd
    have hstart : 4 ∣ s.currentDimensionIdx := by
      obtain ⟨-, -, -, hend⟩ := hs
      omega
    obtain ⟨_, tr₁, rfl, hrun₁⟩ := runs_call_iff.mp hrun
    obtain ⟨_, tr₂, rfl, hrun₂⟩ := runs_call_iff.mp hrun₁
    obtain ⟨t, tr₃, rfl, hrun₃⟩ := runs_call_iff.mp hrun₂
    by_cases hreached : g + 4 ≤ min (s.currentDimensionIdx + size) v
    · exact ⟨_, _, _, _, List.mem_cons_of_mem _ List.mem_cons_self, hstart, hsg, hreached⟩
    · -- the call ends before the group, and no distance is past the threshold it is tested with
      have hend : min (s.currentDimensionIdx + size) v = s.currentDimensionIdx + size := by omega
      simp only [List.forall_mem_cons] at hanswers
      obtain rfl : t = threshold := hanswers.2.2.1
      have hnext := hp.vertical (visited_all s.pruningPositions n).1
        (Nat.le_add_right s.currentDimensionIdx size) hdist
      rw [Nat.add_sub_cancel_left] at hnext
      rw [hend, evaluatePruningPredicateScalar_of_lt fun i hi =>
        hthreshold _ (by omega) _ (hnext i hi)] at hrun₃
      obtain ⟨a, b, distances, positions, hcall, hab⟩ := ih (s := { s with
          pruningDistances := _
          pruningThreshold := t
          currentDimensionIdx := s.currentDimensionIdx + size })
        ⟨dvd_zero 4, Nat.zero_le _, by simp only; omega, Or.inl (Nat.dvd_add hstart hdvd)⟩
        (by simp only; omega) (by simp only; omega) hnext (by simp only; omega) hrun₃ hanswers.2.2.2
      exact ⟨a, b, distances, positions, List.mem_cons_of_mem _ (List.mem_cons_of_mem _
        (List.mem_cons_of_mem _ hcall)), hab⟩

/-- A probe of all vectors has a run with a call for the group at `g`. -/
theorem exists_run_reaches (hd : HasDims S v h) (hdims : v + h ≤ pdxMaxDims)
    (hp : Bounded S.pdxData.quantization query data n P)
    (hthreshold : ∀ c ≤ v, ∀ x, P c x → x < threshold) (hselectivity : 0 < S.selectivityThreshold)
    (hn : 0 < n) {g fuel : Nat} (hfuel : v + h < fuel) (hg : 4 ∣ g) (hgv : g + 4 ≤ v)
    (s : ProbeState D) :
    ∃ tr r, (S.probeAccesses query data n none fuel s).Runs tr r ∧
      ∃ a b distances positions, (⟨.vertical false n a b distances positions, ()⟩ :
        Event (Access D) Access.Answer) ∈ tr ∧ 4 ∣ a ∧ a ≤ g ∧ g + 4 ≤ b := by
  obtain ⟨tr, hrun, hanswers⟩ := exists_runs_eval (S.probeAccesses query data n none fuel s)
    (constantThreshold threshold)
  refine ⟨tr, _, hrun, ?_⟩
  obtain ⟨r₁, tr₁, tr₂, rfl, hwarmup, -⟩ := runs_bind_iff.mp hrun
  obtain ⟨t, tr', rfl, hloop⟩ := runs_call_iff.mp hwarmup
  have htable := pdxMaxDims_le_sum
  have htuples : 0 < ⌈S.selectivityThreshold * n⌉.toNat := by
    have hproduct : 0 < S.selectivityThreshold * n :=
      mul_pos hselectivity (Nat.cast_pos.mpr hn)
    have hceil := Int.ceil_pos.mpr hproduct
    omega
  obtain ⟨a, b, distances, positions, hcall, hab⟩ := warmupLoopAccesses_reaches hd hp hthreshold
    htuples (aligned_zero v) (by rw [List.drop_zero]; simp only; omega) (by simp only; omega)
    (hp.reset s.pruningDistances) hg (Nat.zero_le g) hgv hloop
    fun e he => hanswers e (List.mem_append_left _ (List.mem_cons_of_mem _ he))
  exact ⟨a, b, distances, positions, List.mem_append_left _ (List.mem_cons_of_mem _ hcall), hab⟩

end Searcher

/-! ## NEON -/

section U8

variable {K : Type} [Field K] [LinearOrder K] [FloorRing K]

/-- No U8 distance reaches the greatest 32-bit number. -/
theorem MarkBounded.lt_max {v : Nat} (hv : v ≤ pdxMaxDims) :
    ∀ c ≤ v, ∀ distance, MarkBounded c distance → distance < 2 ^ 32 - 1 := by
  intro c hc distance hdistance
  rw [pdxMaxDims] at hv
  rw [MarkBounded] at hdistance
  omega

/-- The load for the last group of an index without horizontal dimensions leaves the query. -/
theorem not_probesInRange_neon {S : Searcher K UInt8 Nat} {maxValue : UInt8}
    {params : ScalarQuantizationParams K}
    (hq : S.pdxData.quantization = Quantization.u8 maxValue params)
    (hselectivity : 0 < S.selectivityThreshold) (hle : 4 ≤ S.pdxData.numDimensions)
    (hlt : S.pdxData.numDimensions < 128) {n : Nat} (hn : 0 < n) (query data : Nat → UInt8) :
    ¬ S.ProbesInRange Platform.neon.computerU8 query data n := by
  intro hrange
  have hd := S.hasDims
  have htotal := hd.total
  have hhorizontal : S.pdxData.numHorizontalDimensions = 0 := horizontalDimensions_of_lt hlt
  have hdims : S.pdxData.numVerticalDimensions + S.pdxData.numHorizontalDimensions ≤ pdxMaxDims := by
    rw [pdxMaxDims]
    omega
  have hp : Bounded S.pdxData.quantization query data n MarkBounded :=
    hq ▸ u8_bounded maxValue params query data n
  obtain ⟨tr, r, hrun, a, b, distances, positions, hcall, ha, hag, hgb⟩ :=
    Searcher.exists_run_reaches hd hdims hp (MarkBounded.lt_max (by omega)) hselectivity hn
      (g := 4 * (S.pdxData.numDimensions / 4) - 4) (Nat.lt_succ_self _) (by omega) (by omega)
      (.const 0)
  obtain ⟨-, hloads, -⟩ := ((hrange none _ _ (by omega)).2 tr r hrun).2 _ hcall
  have hmem : Load.query (4 * (S.pdxData.numDimensions / 4) - 4) 8 ∈
      Platform.neon.verticalU8Loads false positions n n a b :=
    mem_verticalU8Loads_neon ha (by omega) hag hgb
  have hwithin : 4 * (S.pdxData.numDimensions / 4) - 4 + 8 ≤ S.pdxData.numDimensions :=
    hloads _ hmem
  omega

/-- Probes of F32 indexes are in range on every platform. Probes of U8 indexes are, if and only if
the platform is not NEON or the query is shorter than a group or followed by horizontal
dimensions. -/
theorem probesInRange_iff (platform : Platform) (n : Nat) (hn : 0 < n) :
    (∀ S : Searcher K K (ExactFloat K), S.pdxData.numDimensions ≤ pdxMaxDims →
      S.pruner.numDimensions = S.pdxData.numDimensions → ∀ query data : Nat → K,
        S.ProbesInRange platform.computerF32 query data n) ∧
    ∀ (S : Searcher K UInt8 Nat) (maxValue : UInt8) (params : ScalarQuantizationParams K),
      S.pdxData.quantization = Quantization.u8 maxValue params →
      0 < S.selectivityThreshold → S.pdxData.numDimensions ≤ pdxMaxDims →
      S.pruner.numDimensions = S.pdxData.numDimensions → ∀ query data : Nat → UInt8,
        (S.ProbesInRange platform.computerU8 query data n ↔
          ¬ (platform = .neon ∧ 4 ≤ S.pdxData.numDimensions ∧ S.pdxData.numDimensions < 128)) := by
  refine ⟨fun S hdims hpruner query data => ?_, fun S maxValue params hq hselectivity hdims hpruner
    query data => ⟨fun hrange hneon => ?_, fun hnot => ?_⟩⟩
  · exact probesInRange_of_loads S.hasDims (S.hasDims.total ▸ hdims) hpruner
      (fun hab hlt => verticalF32Loads_within hab (Nat.le_add_right _ _) hlt)
      horizontalLoads_within query data
  · obtain ⟨rfl, hle, hlt⟩ := hneon
    exact not_probesInRange_neon hq hselectivity hle hlt hn query data hrange
  · have htotal := S.hasDims.total
    refine probesInRange_of_loads S.hasDims (htotal ▸ hdims) hpruner
      (fun hab hlt => verticalU8Loads_within hab (Nat.le_add_right _ _) (fun hplatform hv => ?_) hlt)
      horizontalLoads_within query data
    have hlong : 128 ≤ S.pdxData.numDimensions := by
      by_contra hshort
      exact hnot ⟨hplatform, by omega, by omega⟩
    have hblock : hDimSize ≤ S.pdxData.numHorizontalDimensions :=
      hDimSize_le_horizontalDimensions hlong
    simp only [hDimSize] at hblock
    omega

end U8

/-- An index of 134 dimensions on NEON, and one vector of it on AVX2. -/
theorem probesInRange_iff_sixVertical :
    sixVertical.ProbesInRange Platform.neon.computerU8 (fun _ => 7) (fun k => UInt8.ofNat k) 3 ∧
      sixVertical.ProbesInRange Platform.avx2.computerU8 (fun _ => 7) (fun k => UInt8.ofNat k) 1 :=
  ⟨((probesInRange_iff .neon 3 (by decide)).2 sixVertical 255 ⟨0, 1⟩ rfl (by decide +kernel)
      (by decide) rfl _ _).mpr (by decide),
    ((probesInRange_iff .avx2 1 (by decide)).2 sixVertical 255 ⟨0, 1⟩ rfl (by decide +kernel)
      (by decide) rfl _ _).mpr (by decide)⟩

/-- An index of four dimensions: one group and nothing after it. -/
def fourDimensions : Searcher Rat UInt8 Nat :=
  Searcher.new ⟨4, 0, fun _ => 0, fun _ => 1⟩
    { numDimensions := 4
      totalNumEmbeddings := 1
      numClusters := 1
      clusters := [⟨1, fun i => i, fun k => UInt8.ofNat k⟩]
      isNormalized := false
      centroids := fun _ => 0
      quantization := Quantization.u8 255 ⟨0, 1⟩ }

/-- On NEON a probe of its one vector reads bytes 4 to 7 of a query of four. -/
theorem fourDimensions_not_inRange :
    ¬ fourDimensions.ProbesInRange Platform.neon.computerU8 (fun _ => 7)
      (fun k => UInt8.ofNat k) 1 :=
  not_probesInRange_neon rfl (by decide +kernel) (by decide) (by decide) Nat.one_pos _ _

end PDXearch
