import PDXearch.Lib.KSmallest
import Mathlib.Algebra.BigOperators.Group.List.Basic
import Mathlib.Data.Finset.Max

/-!
# Filling up batch by batch

Batches of entries are taken into a container for `k` entries, one after the other. While there is
room only the best entries of a batch are taken, as many as fit, and the others are dropped for
good; once the container is full it keeps the `k` smallest of its contents and the batch.

At most one batch is cut, the one that fills the container. `takesAll_iff` says when the result is
nevertheless the `k` smallest entries of all: when no entry that was dropped belongs to them. In
whichever way the entries are chosen, the container `Fills` up.
-/

namespace PDXearch.Lib

variable {C D : Type} [LinearOrder D] {key : C → D} {k : Nat}

/-- The container `T` becomes `T'` when the batch `B` is taken. -/
structure Takes (key : C → D) (k : Nat) (B T T' : Multiset C) : Prop where
  room : T.card < k → ∃ best, IsKSmallest key (k - T.card) B best ∧ T' = T + best
  full : T.card = k → IsKSmallest key k (B + T) T'

namespace Takes

variable {B T T' : Multiset C}

theorem card_le (h : Takes key k B T T') (hT : T.card ≤ k) : T'.card ≤ k := by
  rcases hT.lt_or_eq with hlt | heq
  · obtain ⟨best, hbest, rfl⟩ := h.room hlt
    rw [Multiset.card_add, hbest.card_eq]
    omega
  · rw [(h.full heq).card_eq]
    exact min_le_left _ _

theorem mem_or (h : Takes key k B T T') (hT : T.card ≤ k) {x : C} (hx : x ∈ T') :
    x ∈ T ∨ x ∈ B := by
  rcases hT.lt_or_eq with hlt | heq
  · obtain ⟨best, hbest, rfl⟩ := h.room hlt
    exact (Multiset.mem_add.mp hx).imp_right (Multiset.mem_of_le hbest.le)
  · exact (Multiset.mem_add.mp (Multiset.mem_of_le (h.full heq).le hx)).symm

theorem zero (key : C → D) (k : Nat) (T : Multiset C) : Takes key k 0 T T where
  room _ := ⟨0, IsKSmallest.self (Nat.zero_le _), (add_zero T).symm⟩
  full hT := by
    rw [zero_add]
    exact IsKSmallest.self hT.le

end Takes

/-- The container `T` becomes `T'` when the batches are taken one after the other. -/
inductive TakesAll (key : C → D) (k : Nat) :
    List (Multiset C) → Multiset C → Multiset C → Prop
  | nil (T : Multiset C) : TakesAll key k [] T T
  | cons {B : Multiset C} {L : List (Multiset C)} {T T' T'' : Multiset C} (h : Takes key k B T T')
      (hL : TakesAll key k L T' T'') : TakesAll key k (B :: L) T T''

theorem TakesAll.mem_or {L : List (Multiset C)} {T F : Multiset C} (h : TakesAll key k L T F)
    (hT : T.card ≤ k) {x : C} (hx : x ∈ F) : x ∈ T ∨ ∃ B ∈ L, x ∈ B := by
  induction h with
  | nil T => exact Or.inl hx
  | cons hstep _ ih =>
    rcases ih (hstep.card_le hT) hx with hxT | ⟨B, hB, hxB⟩
    · rcases hstep.mem_or hT hxT with hxT | hxB
      · exact Or.inl hxT
      · exact Or.inr ⟨_, List.mem_cons_self, hxB⟩
    · exact Or.inr ⟨B, List.mem_cons_of_mem _ hB, hxB⟩

/-- The container `T` becomes `T'` when the batch `B` is taken in any way that fills it up. -/
structure Fills (k : Nat) (B T T' : Multiset C) : Prop where
  le : T' ≤ T + B
  card_eq : T'.card = min k (T.card + B.card)

namespace Fills

variable {B B' T T' T'' : Multiset C}

theorem zero (hT : T.card ≤ k) : Fills k 0 T T where
  le := by rw [add_zero]
  card_eq := by
    rw [Multiset.card_zero, add_zero, min_eq_right hT]

theorem trans (h : Fills k B T T') (h' : Fills k B' T' T'') : Fills k (B + B') T T'' where
  le := by
    rw [← add_assoc]
    exact h'.le.trans (add_le_add_left h.le B')
  card_eq := by
    rw [h'.card_eq, h.card_eq, Multiset.card_add]
    omega

theorem card_le (h : Fills k B T T') : T'.card ≤ k :=
  h.card_eq.trans_le (min_le_left _ _)

theorem map {C' : Type} (h : Fills k B T T') (f : C → C') :
    Fills k (B.map f) (T.map f) (T'.map f) where
  le := by
    rw [← Multiset.map_add]
    exact Multiset.map_le_map h.le
  card_eq := by
    rw [Multiset.card_map, Multiset.card_map, Multiset.card_map, h.card_eq]

end Fills

/-- A radius that holds more of a batch than were taken of it holds enough entries from elsewhere to
fill the container; `A` came before the batches `L`. -/
def CutHarmless (key : C → D) (k : Nat) (A : Multiset C) (L : List (Multiset C)) : Prop :=
  ∀ before B after, L = before ++ B :: after → (A + before.sum).card < k →
    ∀ d, k - (A + before.sum).card < B.countP (fun x => key x ≤ d) →
      (A + before.sum).card ≤ (A + before.sum + after.sum).countP fun x => key x ≤ d

theorem cutHarmless_of_le {A : Multiset C} {L : List (Multiset C)} (hA : k ≤ A.card) :
    CutHarmless key k A L := by
  intro before B after _ hlt
  rw [Multiset.card_add] at hlt
  omega

/-- Everything fits. -/
theorem cutHarmless_of_card_le {A : Multiset C} {L : List (Multiset C)}
    (hcard : (A + L.sum).card ≤ k) : CutHarmless key k A L := by
  rintro before B after rfl _ d hmore
  have hle := Multiset.countP_le_card (fun x => key x ≤ d) B
  rw [List.sum_append, List.sum_cons, Multiset.card_add, Multiset.card_add, Multiset.card_add] at hcard
  rw [Multiset.card_add] at hmore
  omega

theorem cutHarmless_cons {A B : Multiset C} {L : List (Multiset C)} :
    CutHarmless key k A (B :: L) ↔
      (A.card < k → ∀ d, k - A.card < B.countP (fun x => key x ≤ d) →
        A.card ≤ (A + L.sum).countP fun x => key x ≤ d) ∧ CutHarmless key k (A + B) L := by
  constructor
  · intro h
    refine ⟨fun hA => ?_, ?_⟩
    · simpa using h [] B L rfl (by simpa using hA)
    · rintro before B' after rfl hlt
      have hsum : A + (B :: before).sum = A + B + before.sum := by
        rw [List.sum_cons, add_assoc]
      have hstep := h (B :: before) B' after rfl
      rw [hsum] at hstep
      exact hstep hlt
  · rintro ⟨hhead, htail⟩ before B' after heq hlt
    cases before with
    | nil =>
      obtain ⟨rfl, rfl⟩ := List.cons.inj heq
      simpa using hhead (by simpa using hlt)
    | cons B₀ before =>
      obtain ⟨rfl, rfl⟩ := List.cons.inj heq
      have hsum : A + (B :: before).sum = A + B + before.sum := by
        rw [List.sum_cons, add_assoc]
      rw [hsum] at hlt ⊢
      exact htail before B' after rfl hlt

/-- Only radii at which an entry of the batch lies matter. -/
theorem cutHarmless_iff {A : Multiset C} {L : List (Multiset C)} :
    CutHarmless key k A L ↔ ∀ before B after, L = before ++ B :: after →
      (A + before.sum).card < k → ∀ y ∈ B,
        k - (A + before.sum).card < B.countP (fun x => key x ≤ key y) →
          (A + before.sum).card ≤ (A + before.sum + after.sum).countP fun x => key x ≤ key y := by
  constructor
  · intro h before B after heq hlt y _ hmore
    exact h before B after heq hlt (key y) hmore
  · intro h before B after heq hlt d hmore
    have hnonempty : B.filter (fun x => key x ≤ d) ≠ 0 := by
      rw [← Multiset.card_pos, ← Multiset.countP_eq_card_filter]
      omega
    obtain ⟨y, hy, hmax⟩ := Multiset.exists_max_image key hnonempty
    obtain ⟨hyB, hyd⟩ := Multiset.mem_filter.mp hy
    have hsame : B.countP (fun x => key x ≤ key y) = B.countP fun x => key x ≤ d :=
      Multiset.countP_congr rfl fun x hx => propext
        ⟨fun hle => hle.trans hyd, fun hle => hmax x (Multiset.mem_filter.mpr ⟨hx, hle⟩)⟩
    refine (h before B after heq hlt y hyB (hsame ▸ hmore)).trans ?_
    rw [Multiset.countP_eq_card_filter, Multiset.countP_eq_card_filter]
    exact Multiset.card_le_card
      (Multiset.monotone_filter_right _ fun x hle => le_trans hle hyd)

/-- Only the order of the keys matters. -/
theorem cutHarmless_congr {D' : Type} [LinearOrder D'] {key' : C → D'} {A : Multiset C}
    {L : List (Multiset C)}
    (hle : ∀ x ∈ A + L.sum, ∀ y ∈ A + L.sum, key x ≤ key y ↔ key' x ≤ key' y) :
    CutHarmless key k A L ↔ CutHarmless key' k A L := by
  rw [cutHarmless_iff, cutHarmless_iff]
  refine forall₄_congr fun before B after heq => imp_congr_right fun _ =>
    forall₂_congr fun y hy => ?_
  have hparts : A + L.sum = A + before.sum + after.sum + B := by
    rw [heq, List.sum_append, List.sum_cons]
    ac_rfl
  rw [hparts] at hle
  have hyAll : y ∈ A + before.sum + after.sum + B := Multiset.mem_add.mpr (Or.inr hy)
  have hbatch : B.countP (fun x => key x ≤ key y) = B.countP fun x => key' x ≤ key' y :=
    Multiset.countP_congr rfl fun x hx =>
      propext (hle x (Multiset.mem_add.mpr (Or.inr hx)) y hyAll)
  have hrest : (A + before.sum + after.sum).countP (fun x => key x ≤ key y) =
      (A + before.sum + after.sum).countP fun x => key' x ≤ key' y :=
    Multiset.countP_congr rfl fun x hx =>
      propext (hle x (Multiset.mem_add.mpr (Or.inl hx)) y hyAll)
  rw [hbatch, hrest]

theorem cutHarmless_map {C' : Type} {f : C' → C} {A : Multiset C'} {L : List (Multiset C')} :
    CutHarmless key k (A.map f) (L.map (Multiset.map f)) ↔ CutHarmless (fun x => key (f x)) k A L := by
  have hsum : ∀ L : List (Multiset C'), (L.map (Multiset.map f)).sum = L.sum.map f := fun L =>
    (map_list_sum (Multiset.mapAddMonoidHom f) L).symm
  have hcount : ∀ (B : Multiset C') (d : D), (B.map f).countP (fun x => key x ≤ d) =
      B.countP fun x => key (f x) ≤ d := by
    intro B d
    rw [Multiset.countP_map, Multiset.countP_eq_card_filter]
  constructor
  · intro h before B after heq hlt d hmore
    have hmapped := h (before.map (Multiset.map f)) (B.map f) (after.map (Multiset.map f))
      (by rw [heq, List.map_append, List.map_cons])
    rw [hsum, hsum, ← Multiset.map_add, ← Multiset.map_add, Multiset.card_map] at hmapped
    have hd := hmapped hlt d
    rw [hcount, hcount] at hd
    exact hd hmore
  · intro h before B after heq hlt d hmore
    obtain ⟨before', rest, rfl, rfl, hrest⟩ := List.map_eq_append_iff.mp heq
    obtain ⟨B', after', rfl, rfl, rfl⟩ := List.map_eq_cons_iff.mp hrest
    rw [hsum, ← Multiset.map_add, Multiset.card_map] at hlt hmore ⊢
    rw [hsum, ← Multiset.map_add, hcount]
    rw [hcount] at hmore
    exact h before' B' after' rfl hlt d hmore

/-- A full container loses nothing. -/
theorem TakesAll.isKSmallest {L : List (Multiset C)} {A T F : Multiset C}
    (h : TakesAll key k L T F) (hA : IsKSmallest key k A T) (hcard : T.card = k) :
    IsKSmallest key k (A + L.sum) F ∧ F.card = k := by
  induction h generalizing A with
  | nil T => exact ⟨by simpa using hA, hcard⟩
  | cons hstep _ ih =>
    have hnext := hstep.full hcard
    have hcard' := hnext.card_eq
    rw [Multiset.card_add, hcard] at hcard'
    have hall := ih (hA.trans_add hcard hnext) (by omega)
    rwa [List.sum_cons, ← add_assoc, add_comm A]

/-- What is missing after a batch `best + R` of which only `best` was taken. -/
theorem isKSmallest_cut_iff {A L best R F : Multiset C}
    (hbest : ∀ x ∈ best, ∀ y ∈ R, key x ≤ key y) (hroom : best.card = k - A.card)
    (hA : A.card < k) (hF : IsKSmallest key k (A + best + L) F) (hcard : F.card = k) :
    IsKSmallest key k (R + (A + best + L)) F ↔
      ∀ d, k - A.card < (best + R).countP (fun x => key x ≤ d) →
        A.card ≤ (A + L).countP fun x => key x ≤ d := by
  rw [hF.add_iff hcard]
  constructor
  · intro h d hd
    obtain ⟨y, hy, hyd⟩ : ∃ y ∈ R, key y ≤ d := by
      refine Multiset.countP_pos.mp ?_
      have := Multiset.countP_le_card (fun x => key x ≤ d) best
      rw [Multiset.countP_add] at hd
      omega
    have hk := (hF.forall_le_iff hcard d).mp fun x hx => (h y hy x hx).trans hyd
    have := Multiset.countP_le_card (fun x => key x ≤ d) best
    rw [add_right_comm, Multiset.countP_add] at hk
    omega
  · intro h y hy
    rw [hF.forall_le_iff hcard]
    have hall : best.countP (fun x => key x ≤ key y) = best.card :=
      Multiset.countP_eq_card.mpr fun x hx => hbest x hx y hy
    have hpos : 0 < R.countP fun x => key x ≤ key y :=
      Multiset.countP_pos.mpr ⟨y, hy, le_rfl⟩
    have hmany := h (key y) (by rw [Multiset.countP_add]; omega)
    rw [add_right_comm, Multiset.countP_add]
    omega

/-- The result is right exactly when the cut is harmless. -/
theorem takesAll_iff {L : List (Multiset C)} {A F : Multiset C} (h : TakesAll key k L A F)
    (hA : A.card < k) :
    IsKSmallest key k (A + L.sum) F ↔ CutHarmless key k A L := by
  induction L generalizing A with
  | nil =>
    cases h
    refine iff_of_true (by simpa using IsKSmallest.self hA.le) fun before B after heq => ?_
    simp at heq
  | cons B L ih =>
    obtain ⟨hstep, hL⟩ : ∃ T', Takes key k B A T' ∧ TakesAll key k L T' F := by
      cases h with
      | cons hstep hL => exact ⟨_, hstep, hL⟩
    obtain ⟨hstep, hL⟩ := hL
    obtain ⟨best, hbest, rfl⟩ := hstep.room hA
    rw [cutHarmless_cons, List.sum_cons]
    by_cases hfits : B.card ≤ k - A.card
    · -- the whole batch is taken
      obtain rfl : best = B := by
        refine Multiset.eq_of_le_of_card_le hbest.le ?_
        rw [hbest.card_eq]
        omega
      have hhead : A.card < k → ∀ d, k - A.card < best.countP (fun x => key x ≤ d) →
          A.card ≤ (A + L.sum).countP fun x => key x ≤ d := fun _ d hd => by
        have := Multiset.countP_le_card (fun x => key x ≤ d) best
        omega
      rw [and_iff_right hhead, ← add_assoc]
      by_cases hfull : (A + best).card < k
      · exact ih hL hfull
      · have hcard : (A + best).card = k := by
          rw [Multiset.card_add] at hfull ⊢
          omega
        exact iff_of_true (hL.isKSmallest (IsKSmallest.self hcard.le) hcard).1
          (cutHarmless_of_le hcard.ge)
    · -- the batch is cut
      obtain ⟨R, rfl, hcardbest, hle⟩ := hbest
      have hroom : best.card = k - A.card := by omega
      have hcard : (A + best).card = k := by
        rw [Multiset.card_add]
        omega
      obtain ⟨hF, hFcard⟩ := hL.isKSmallest (IsKSmallest.self hcard.le) hcard
      have hall : A + (best + R + L.sum) = R + (A + best + L.sum) := by
        rw [add_comm best R, add_assoc R, add_left_comm, add_assoc A]
      have htail : CutHarmless key k (A + (best + R)) L := by
        refine cutHarmless_of_le ?_
        rw [← add_assoc, Multiset.card_add, hcard]
        exact Nat.le_add_right _ _
      rw [hall, isKSmallest_cut_iff hle hroom hA hF hFcard, and_iff_left htail]
      exact ⟨fun h _ => h, fun h => h hA⟩

end PDXearch.Lib
