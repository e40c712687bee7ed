import PDXearch.Lib.PriorityQueue
import Mathlib.Algebra.Order.Group.Multiset
import Mathlib.Data.Multiset.Lattice

/-!
# The `k` smallest entries of a stream

`IsKSmallest key k A T` says that `T` holds `k` entries of `A` of smallest key (all of `A` when
it has fewer than `k`); ties are resolved in any way. `offer` is the bounded insertion of a
max-queue: it keeps the `k` smallest entries seen. The last part treats a queue that starts with
one sentinel entry of key `⊤`: the sentinel is there as long as fewer than `k` entries were seen.
-/

namespace PDXearch.Lib

open PriorityQueue

variable {H C D : Type} [LinearOrder D] {key : C → D}

/-- `T` consists of `min k |A|` entries of `A`, and none of the others has a smaller key. -/
def IsKSmallest (key : C → D) (k : Nat) (A T : Multiset C) : Prop :=
  ∃ R, A = T + R ∧ T.card = min k A.card ∧ ∀ x ∈ T, ∀ y ∈ R, key x ≤ key y

namespace IsKSmallest

theorem card_eq {k : Nat} {A T : Multiset C} (h : IsKSmallest key k A T) :
    T.card = min k A.card := by
  obtain ⟨_, _, hcard, _⟩ := h
  exact hcard

theorem le {k : Nat} {A T : Multiset C} (h : IsKSmallest key k A T) : T ≤ A := by
  obtain ⟨R, rfl, _⟩ := h
  exact Multiset.le_add_right T R

theorem self {k : Nat} {A : Multiset C} (hk : A.card ≤ k) : IsKSmallest key k A A :=
  ⟨0, by simp, by simp [hk], by simp⟩

/-- An entry that was lost for a greater one. -/
theorem not_of_lost {k : Nat} {A T : Multiset C} {x y : C} (hx : x ∈ T) (hy : y ∈ A) (hyT : y ∉ T)
    (hlt : key y < key x) : ¬ IsKSmallest key k A T := by
  rintro ⟨R, rfl, -, hle⟩
  have hyR : y ∈ R := (Multiset.mem_add.mp hy).resolve_left hyT
  exact absurd (hle x hx y hyR) (not_le.mpr hlt)

theorem of_min {k : Nat} {A T : Multiset C} (h : IsKSmallest key (min k A.card) A T) :
    IsKSmallest key k A T := by
  obtain ⟨R, hA, hcard, hle⟩ := h
  exact ⟨R, hA, by omega, hle⟩

theorem congr_key {D' : Type} [LinearOrder D'] {key' : C → D'} {k : Nat} {A T : Multiset C}
    (h : IsKSmallest key k A T) (hkey : ∀ x ∈ A, ∀ y ∈ A, key x ≤ key y → key' x ≤ key' y) :
    IsKSmallest key' k A T := by
  obtain ⟨R, rfl, hcard, hle⟩ := h
  refine ⟨R, rfl, hcard, fun x hx y hy => ?_⟩
  exact hkey x (Multiset.mem_add.mpr (Or.inl hx)) y (Multiset.mem_add.mpr (Or.inr hy))
    (hle x hx y hy)

/-- The head of a sorted selection is no greater than any entry. -/
theorem head_le {k : Nat} {A : Multiset C} {T : List C} (h : IsKSmallest key k A T) (hk : 0 < k)
    (hsorted : T.Pairwise (fun a b => key a ≤ key b)) {x : C} (hx : x ∈ A) :
    ∃ y, T.head? = some y ∧ y ∈ A ∧ key y ≤ key x := by
  obtain ⟨R, rfl, hcard, hle⟩ := h
  cases T with
  | nil =>
    have hpos := Multiset.card_pos_iff_exists_mem.mpr ⟨x, hx⟩
    rw [Multiset.coe_card, List.length_nil] at hcard
    omega
  | cons y ys =>
    refine ⟨y, rfl, Multiset.mem_add.mpr (Or.inl (Multiset.mem_coe.mpr List.mem_cons_self)), ?_⟩
    rcases Multiset.mem_add.mp hx with hx | hx
    · rcases List.mem_cons.mp (Multiset.mem_coe.mp hx) with rfl | hx
      · exact le_rfl
      · exact (List.pairwise_cons.mp hsorted).1 x hx
    · exact hle y (Multiset.mem_coe.mpr List.mem_cons_self) x hx

/-- Entries chosen by the keys of their images. -/
theorem map {C' D' : Type} [LinearOrder D'] {key' : C' → D'} {k : Nat} {A T : Multiset C}
    {f : C → C'} (h : IsKSmallest (fun x => key' (f x)) k A T) :
    IsKSmallest key' k (A.map f) (T.map f) := by
  obtain ⟨R, rfl, hcard, hle⟩ := h
  refine ⟨R.map f, Multiset.map_add f T R, by simpa using hcard, ?_⟩
  intro x hx y hy
  obtain ⟨a, ha, rfl⟩ := Multiset.mem_map.mp hx
  obtain ⟨b, hb, rfl⟩ := Multiset.mem_map.mp hy
  exact hle a ha b hb

/-- Images that can be told apart. -/
theorem map_iff {C' : Type} {k : Nat} {A : Multiset C'} {T : Multiset C} {f : C' → C} {g : C → C'}
    (hg : ∀ x ∈ A, g (f x) = x) (hT : ∀ y ∈ T, y ∈ A.map f) :
    IsKSmallest key k (A.map f) T ↔ IsKSmallest (fun x => key (f x)) k A (T.map g) := by
  have hf : ∀ y ∈ A.map f, f (g y) = y := by
    intro y hy
    obtain ⟨x, hx, rfl⟩ := Multiset.mem_map.mp hy
    rw [hg x hx]
  have hgA : (A.map f).map g = A := by
    rw [Multiset.map_map]
    exact (Multiset.map_congr rfl hg).trans (Multiset.map_id A)
  have hfT : (T.map g).map f = T := by
    rw [Multiset.map_map]
    exact (Multiset.map_congr rfl fun y hy => hf y (hT y hy)).trans (Multiset.map_id T)
  constructor
  · intro h
    have himage : IsKSmallest (fun y => key (f (g y))) k (A.map f) T :=
      h.congr_key fun y hy y' hy' hle => by rwa [hf y hy, hf y' hy']
    have hmapped : IsKSmallest (fun x => key (f x)) k ((A.map f).map g) (T.map g) := by
      refine IsKSmallest.map ?_
      exact himage
    rwa [hgA] at hmapped
  · intro h
    have hmapped : IsKSmallest key k (A.map f) ((T.map g).map f) := by
      refine IsKSmallest.map ?_
      exact h
    rwa [hfT] at hmapped

/-- Fewer than `k` kept entries: nothing was left out. -/
theorem eq_of_card_lt {k : Nat} {A T : Multiset C} (h : IsKSmallest key k A T)
    (hlt : T.card < k) : T = A := by
  obtain ⟨R, rfl, hcard, _⟩ := h
  have hR : R.card = 0 := by
    rw [Multiset.card_add] at hcard
    omega
  rw [Multiset.card_eq_zero.mp hR, add_zero]

/-- An entry that no kept entry exceeds may be left out. -/
theorem cons_left {k : Nat} {A T : Multiset C} (h : IsKSmallest key k A T) (hcard : T.card = k)
    {c : C} (hc : ∀ x ∈ T, key x ≤ key c) : IsKSmallest key k (c ::ₘ A) T := by
  obtain ⟨R, rfl, hmin, hle⟩ := h
  refine ⟨c ::ₘ R, by simp, ?_, ?_⟩
  · rw [Multiset.card_cons]
    omega
  · intro x hx y hy
    rcases Multiset.mem_cons.mp hy with rfl | hy
    · exact hc x hx
    · exact hle x hx y hy

theorem add_left {k : Nat} {A T B : Multiset C} (h : IsKSmallest key k A T) (hcard : T.card = k)
    (hB : ∀ y ∈ B, ∀ x ∈ T, key x ≤ key y) : IsKSmallest key k (B + A) T := by
  induction B using Multiset.induction with
  | empty => simpa using h
  | cons b B ih =>
    rw [Multiset.cons_add]
    exact (ih fun y hy => hB y (Multiset.mem_cons_of_mem hy)).cons_left hcard
      (hB b (Multiset.mem_cons_self _ _))

/-- Whether entries that were left out matter depends on the kept entries only. -/
theorem add_iff {k : Nat} {A B T : Multiset C} (h : IsKSmallest key k A T) (hcard : T.card = k) :
    IsKSmallest key k (B + A) T ↔ ∀ y ∈ B, ∀ x ∈ T, key x ≤ key y := by
  refine ⟨?_, h.add_left hcard⟩
  rintro ⟨R, hR, -, hle⟩ y hy x hx
  obtain ⟨R', rfl, -, -⟩ := h
  have hrest : B + R' = R := by
    rw [add_left_comm] at hR
    exact add_left_cancel hR
  exact hle x hx y (hrest ▸ Multiset.mem_add.mpr (Or.inl hy))

/-- Further entries may be merged into the kept ones in place of all. -/
theorem trans_add {k : Nat} {A B T T' : Multiset C} (h : IsKSmallest key k A T)
    (hcard : T.card = k) (h' : IsKSmallest key k (B + T) T') : IsKSmallest key k (B + A) T' := by
  obtain ⟨R, rfl, -, hle⟩ := h
  have hcard' : T'.card = k := by
    rw [h'.card_eq, Multiset.card_add]
    omega
  have hlarge : ∀ y ∈ R, ∀ x ∈ T', key x ≤ key y := by
    intro y hy x hx
    obtain ⟨R', hR', -, hle'⟩ := h'
    by_cases hxT : x ∈ T
    · exact hle x hxT y hy
    -- an entry of `B` took the place of an entry of `T`
    · obtain ⟨t, htT, htR⟩ : ∃ t ∈ T, t ∈ R' := by
        by_contra hnone
        push Not at hnone
        have hle : T ≤ T' := by
          classical
          refine Multiset.le_iff_count.mpr fun t => ?_
          by_cases ht : t ∈ T
          · have hcount := congrArg (Multiset.count t) hR'
            rw [Multiset.count_add, Multiset.count_add, Multiset.count_eq_zero.mpr (hnone t ht)]
              at hcount
            omega
          · rw [Multiset.count_eq_zero.mpr ht]
            exact Nat.zero_le _
        exact hxT (Multiset.eq_of_le_of_card_le hle (by omega) ▸ hx)
      exact (hle' x hx t htR).trans (hle t htT y hy)
  rw [add_comm T R, add_left_comm]
  exact h'.add_left hcard' hlarge

/-- All kept entries are within a bound if and only if enough of all entries are. -/
theorem forall_le_iff {k : Nat} {A T : Multiset C} (h : IsKSmallest key k A T) (hcard : T.card = k)
    (d : D) : (∀ x ∈ T, key x ≤ d) ↔ k ≤ A.countP fun x => key x ≤ d := by
  obtain ⟨R, rfl, -, hle⟩ := h
  rw [Multiset.countP_add]
  constructor
  · intro hall
    rw [Multiset.countP_eq_card.mpr hall]
    omega
  · intro hk x hx
    by_contra hlt
    have hnone : (R.countP fun x => key x ≤ d) = 0 :=
      Multiset.countP_eq_zero.mpr fun y hy hyd => hlt ((hle x hx y hy).trans hyd)
    have hless : (T.countP fun x => key x ≤ d) < T.card := by
      refine lt_of_le_of_ne (Multiset.countP_le_card _ T) fun heq => ?_
      exact hlt (Multiset.countP_eq_card.mp heq x hx)
    omega

/-! ### The entries in order -/

/-- None of the `k` smallest exceeds a bound that `k` entries stay within. -/
theorem key_le_of_countP {k : Nat} {A T : Multiset C} (h : IsKSmallest key k A T) {d : D}
    (hcount : k ≤ A.countP fun x => key x ≤ d) {x : C} (hx : x ∈ T) : key x ≤ d := by
  by_contra hnot
  obtain ⟨R, rfl, hcard, hle⟩ := h
  have hnone : (R.countP fun y => key y ≤ d) = 0 :=
    Multiset.countP_eq_zero.mpr fun y hy => not_le.mpr ((not_le.mp hnot).trans_le (hle x hx y hy))
  rw [Multiset.countP_add, hnone, add_zero] at hcount
  have hfew := Multiset.countP_le_card (fun y => key y ≤ d) T
  have hall : (T.countP fun y => key y ≤ d) = T.card := by omega
  exact hnot (Multiset.countP_eq_card.mp hall x hx)

theorem length_le {k : Nat} {A B : Multiset C} {T T' : List C} (h : IsKSmallest key k A T)
    (h' : IsKSmallest key k (B + A) T') : T.length ≤ T'.length := by
  have hcard := h.card_eq
  have hcard' := h'.card_eq
  rw [Multiset.coe_card] at hcard hcard'
  rw [Multiset.card_add] at hcard'
  omega

end IsKSmallest

/-! ## Approximations -/

section Nearly

variable {near : C → C → Prop}

/-- As many entries of `A` as the `k` smallest are; each entry that was left out is in the relation
`near` to them. -/
def IsNearlyKSmallest (near : C → C → Prop) (k : Nat) (A T : Multiset C) : Prop :=
  ∃ R, A = T + R ∧ T.card = min k A.card ∧ ∀ x ∈ T, ∀ y ∈ R, near x y

theorem isKSmallest_iff_isNearlyKSmallest {k : Nat} {A T : Multiset C} :
    IsKSmallest key k A T ↔ IsNearlyKSmallest (fun x y => key x ≤ key y) k A T := Iff.rfl

namespace IsNearlyKSmallest

theorem le {k : Nat} {A T : Multiset C} (h : IsNearlyKSmallest near k A T) : T ≤ A := by
  obtain ⟨R, rfl, _⟩ := h
  exact Multiset.le_add_right T R

theorem mono {near' : C → C → Prop} {k : Nat} {A T : Multiset C} (h : IsNearlyKSmallest near k A T)
    (hnear : ∀ x ∈ A, ∀ y ∈ A, near x y → near' x y) : IsNearlyKSmallest near' k A T := by
  obtain ⟨R, rfl, hcard, hall⟩ := h
  refine ⟨R, rfl, hcard, fun x hx y hy => ?_⟩
  exact hnear x (Multiset.mem_add.mpr (Or.inl hx)) y (Multiset.mem_add.mpr (Or.inr hy))
    (hall x hx y hy)

theorem map {C' : Type} {near' : C' → C' → Prop} {f : C → C'} {k : Nat} {A T : Multiset C}
    (h : IsNearlyKSmallest (fun x y => near' (f x) (f y)) k A T) :
    IsNearlyKSmallest near' k (A.map f) (T.map f) := by
  obtain ⟨R, rfl, hcard, hall⟩ := h
  refine ⟨R.map f, Multiset.map_add f T R, by simpa using hcard, fun x' hx' y' hy' => ?_⟩
  obtain ⟨x, hx, rfl⟩ := Multiset.mem_map.mp hx'
  obtain ⟨y, hy, rfl⟩ := Multiset.mem_map.mp hy'
  exact hall x hx y hy

end IsNearlyKSmallest

/-- Entries that were dropped while there was no room. -/
theorem IsKSmallest.isNearlyKSmallest_add {k : Nat} {A B T : Multiset C} (h : IsKSmallest key k A T)
    (hA : ∀ x ∈ A, ∀ y ∈ A, key x ≤ key y → near x y)
    (hB : ∀ y ∈ B, T.card = k ∧ ∀ x ∈ T, near x y) : IsNearlyKSmallest near k (A + B) T := by
  have hle := h.le
  obtain ⟨R, rfl, hcard, hsmall⟩ := h
  refine ⟨R + B, add_assoc T R B, ?_, fun x hx y hy => ?_⟩
  · rcases Multiset.empty_or_exists_mem B with rfl | ⟨y, hy⟩
    · rwa [add_zero]
    · have hfull := (hB y hy).1
      simp only [Multiset.card_add] at hcard ⊢
      omega
  · rcases Multiset.mem_add.mp hy with hy | hy
    · exact hA x (Multiset.mem_of_le hle hx) y (Multiset.mem_add.mpr (Or.inr hy)) (hsmall x hx y hy)
    · exact (hB y hy).2 x hx

end Nearly

/-! ## Bounded insertion -/

variable [OrderTop D] [PriorityQueue H key]

/-- Insert when there is room or when `c` is smaller than the greatest entry, which then makes
room. -/
def offer (k : Nat) (c : C) (h : H) : H :=
  if size h < k ∨ key c < topKey h then
    push c (if k ≤ size h then pop h else h)
  else h

/-- The test that `offer` makes. -/
def Inserts (k : Nat) (c : C) (h : H) : Prop := size h < k ∨ key c < topKey h

def offerAll (k : Nat) (cs : List C) (h : H) : H := cs.foldl (fun h c => offer k c h) h

@[simp] theorem offerAll_nil (k : Nat) (h : H) : offerAll k [] h = h := rfl

@[simp] theorem offerAll_cons (k : Nat) (c : C) (cs : List C) (h : H) :
    offerAll k (c :: cs) h = offerAll k cs (offer k c h) := rfl

theorem offerAll_append (k : Nat) (cs cs' : List C) (h : H) :
    offerAll k (cs ++ cs') h = offerAll k cs' (offerAll k cs h) :=
  List.foldl_append

theorem offer_isKSmallest {k : Nat} (hk : 0 < k) {A : Multiset C} {h : H}
    (hA : IsKSmallest key k A (elems h)) (c : C) :
    IsKSmallest key k (c ::ₘ A) (elems (offer k c h)) := by
  rw [offer]
  by_cases hroom : size h < k
  · have hall := hA.eq_of_card_lt (size_eq h ▸ hroom)
    rw [if_pos (Or.inl hroom), if_neg (by omega), elems_push, hall]
    refine IsKSmallest.self ?_
    rw [Multiset.card_cons, ← hall, ← size_eq]
    omega
  · have hcard : (elems h).card = k := by
      have := hA.card_eq
      rw [size_eq] at hroom
      omega
    have hne : elems h ≠ 0 := fun h0 => by
      rw [h0, Multiset.card_zero] at hcard
      omega
    by_cases hlt : key c < topKey h
    · obtain ⟨t, ht⟩ := exists_top? hne
      rw [topKey_of_top? ht] at hlt
      rw [if_pos (Or.inr (topKey_of_top? ht ▸ hlt)), if_pos (by omega), elems_push]
      obtain ⟨R, rfl, hmin, hle⟩ := hA
      have hpop := elems_pop h t ht
      refine ⟨t ::ₘ R, ?_, ?_, ?_⟩
      · rw [← hpop]
        simp only [Multiset.cons_add, Multiset.add_cons]
        exact Multiset.cons_swap _ _ _
      · rw [← hpop] at hcard hmin
        simp only [Multiset.card_cons, Multiset.card_add] at hcard hmin ⊢
        rw [← hpop]
        simp only [Multiset.card_cons]
        omega
      · intro x hx y hy
        have htop := le_top h t ht
        have hxt : key x ≤ key t := by
          rcases Multiset.mem_cons.mp hx with rfl | hx
          · exact hlt.le
          · exact htop x (hpop ▸ Multiset.mem_cons_of_mem hx)
        rcases Multiset.mem_cons.mp hy with rfl | hy
        · exact hxt
        · exact hxt.trans (hle t (mem_of_top? ht) y hy)
    · rw [if_neg (by simp [hroom, hlt])]
      refine hA.cons_left hcard ?_
      intro x hx
      exact (le_topKey hx).trans (not_lt.mp hlt)

theorem offerAll_isKSmallest {k : Nat} (hk : 0 < k) {A : Multiset C} {h : H}
    (hA : IsKSmallest key k A (elems h)) (cs : List C) :
    IsKSmallest key k (cs + A) (elems (offerAll k cs h)) := by
  induction cs generalizing A h with
  | nil => simpa using hA
  | cons c cs ih =>
    have := ih (offer_isKSmallest hk hA c)
    simpa [← Multiset.cons_coe, Multiset.cons_add, Multiset.add_cons] using this

/-! ## The least key -/

/-- The least key in the queue; `⊤` when it is empty. -/
def leastKey (h : H) : D := ((elems h).map key).inf

theorem leastKey_le {h : H} {x : C} (hx : x ∈ elems h) : leastKey h ≤ key x :=
  Multiset.inf_le (Multiset.mem_map_of_mem key hx)

theorem leastKey_le_topKey (h : H) : leastKey h ≤ topKey h := by
  by_cases hne : elems h = 0
  · rw [topKey, (top?_none h).mpr hne]
    exact le_top
  · obtain ⟨c, hc, hkey⟩ := exists_topKey hne
    exact hkey ▸ leastKey_le hc

omit [PriorityQueue H key] in
theorem lt_inf {d : D} (hd : d < ⊤) {s : Multiset D} (h : ∀ b ∈ s, d < b) : d < s.inf := by
  induction s using Multiset.induction_on with
  | empty => exact hd
  | cons b s ih =>
    obtain ⟨hb, hs⟩ := Multiset.forall_mem_cons.mp h
    rw [Multiset.inf_cons]
    exact lt_inf_iff.mpr ⟨hb, ih hs⟩

/-- A bound on the least key is a bound on some entry's. -/
theorem exists_key_le {h : H} {d : D} (hd : d < ⊤) (hle : leastKey h ≤ d) :
    ∃ x ∈ elems h, key x ≤ d := by
  by_contra hnot
  refine absurd (lt_inf hd fun b hb => ?_) (not_lt.mpr hle)
  obtain ⟨x, hx, rfl⟩ := Multiset.mem_map.mp hb
  exact not_le.mp fun hxd => hnot ⟨x, hx, hxd⟩

/-- A bounded insertion makes room at the greatest key. -/
theorem leastKey_offer_le {k : Nat} (hk : 0 < k) (c : C) (h : H) :
    leastKey (offer k c h) ≤ leastKey h ∧ leastKey (offer k c h) ≤ key c := by
  rw [offer]
  by_cases hins : size h < k ∨ key c < topKey h
  · rw [if_pos hins]
    refine ⟨?_, leastKey_le (by simp)⟩
    by_cases hroom : size h < k
    · rw [if_neg (by omega), leastKey, elems_push, Multiset.map_cons, Multiset.inf_cons]
      exact inf_le_right
    · have hne : elems h ≠ 0 := by
        rw [← Multiset.card_pos, ← size_eq]
        omega
      obtain ⟨t, ht⟩ := exists_top? hne
      have hlt : key c < key t := topKey_of_top? ht ▸ hins.resolve_left hroom
      rw [if_pos (by omega), leastKey, leastKey, elems_push, ← elems_pop h t ht, Multiset.map_cons,
        Multiset.map_cons, Multiset.inf_cons, Multiset.inf_cons]
      exact inf_le_inf_right _ hlt.le
  · rw [if_neg hins]
    exact ⟨le_rfl, (leastKey_le_topKey h).trans (not_lt.mp (not_or.mp hins).2)⟩

theorem leastKey_offerAll_le {k : Nat} (hk : 0 < k) (cs : List C) (h : H) :
    leastKey (offerAll k cs h) ≤ leastKey h ∧ ∀ c ∈ cs, leastKey (offerAll k cs h) ≤ key c := by
  induction cs generalizing h with
  | nil => exact ⟨le_rfl, fun c hc => absurd hc List.not_mem_nil⟩
  | cons c cs ih =>
    obtain ⟨hle, hkey⟩ := leastKey_offer_le hk c h
    obtain ⟨hrest, hall⟩ := ih (offer k c h)
    exact ⟨hrest.trans hle, List.forall_mem_cons.mpr ⟨hrest.trans hkey, hall⟩⟩

/-- What is in the queue was there before or has been offered. -/
theorem offer_le {k : Nat} (hk : 0 < k) (c : C) (h : H) :
    elems (offer k c h) ≤ c ::ₘ elems h ∧
      ((elems h).card ≤ k → (elems (offer k c h)).card ≤ k) := by
  rw [offer]
  split
  · rw [elems_push, Multiset.card_cons, ← size_eq]
    by_cases hroom : size h < k
    · rw [if_neg (by omega), ← size_eq]
      exact ⟨le_rfl, fun _ => hroom⟩
    · have hne : elems h ≠ 0 := by
        rw [← Multiset.card_pos, ← size_eq]
        omega
      obtain ⟨t, ht⟩ := exists_top? hne
      have hpop := size_pop ht
      rw [if_pos (by omega), ← size_eq]
      refine ⟨Multiset.cons_le_cons c ?_, by omega⟩
      exact elems_pop h t ht ▸ Multiset.le_cons_self _ t
  · exact ⟨Multiset.le_cons_self _ c, id⟩

theorem offerAll_le {k : Nat} (hk : 0 < k) (cs : List C) (h : H) :
    elems (offerAll k cs h) ≤ cs + elems h ∧
      ((elems h).card ≤ k → (elems (offerAll k cs h)).card ≤ k) := by
  induction cs generalizing h with
  | nil => exact ⟨by simp, id⟩
  | cons c cs ih =>
    obtain ⟨hle, hcard⟩ := offer_le hk c h
    obtain ⟨hrest, hcards⟩ := ih (offer k c h)
    refine ⟨hrest.trans ?_, hcards ∘ hcard⟩
    rw [← Multiset.cons_coe, Multiset.cons_add, ← Multiset.add_cons]
    exact add_le_add le_rfl hle

/-! ## A queue that starts with one sentinel -/

/-- The queue holds the `k` smallest of a sentinel of key `⊤` and of the entries `A`, all of
smaller key. -/
structure Primed (k : Nat) (s : C) (A : Multiset C) (h : H) : Prop where
  pos : 0 < k
  key_sentinel : key s = ⊤
  key_lt : ∀ x ∈ A, key x < ⊤
  kept : IsKSmallest key k (s ::ₘ A) (elems h)

namespace Primed

variable {k : Nat} {s : C} {A : Multiset C} {h : H}

theorem card_le (hp : Primed k s A h) : (elems h).card ≤ k := by
  have := hp.kept.card_eq
  omega

theorem elems_ne_zero (hp : Primed k s A h) : elems h ≠ 0 := by
  intro h0
  have hpos := hp.pos
  have hcard := hp.kept.card_eq
  simp only [h0, Multiset.card_zero, Multiset.card_cons] at hcard
  omega

/-- As long as the sentinel is there, every entry offered so far is in the queue. -/
theorem elems_eq_of_card_lt (hp : Primed k s A h) (hlt : A.card < k) : elems h = s ::ₘ A := by
  obtain ⟨R, hR, hcard, _⟩ := hp.kept
  have hc := congrArg Multiset.card hR
  rw [Multiset.card_add, hcard, Multiset.card_cons] at hc
  have hR0 : R = 0 := Multiset.card_eq_zero.mp (by omega)
  rw [hR, hR0, add_zero]

/-- The sentinel is in the queue exactly as long as fewer than `k` entries were offered. -/
theorem sentinel_mem_iff (hp : Primed k s A h) : s ∈ elems h ↔ A.card < k := by
  constructor
  · intro hs
    by_contra hge
    obtain ⟨R, hR, hcard, hle⟩ := hp.kept
    obtain ⟨T, hT⟩ := Multiset.exists_cons_of_mem hs
    rw [hT, Multiset.cons_add] at hR
    have hA : A = T + R := (Multiset.cons_inj_right s).mp hR
    have hRpos : 0 < R.card := by
      rw [hT, hA] at hcard
      rw [hA] at hge
      simp only [Multiset.card_cons, Multiset.card_add] at hcard hge
      omega
    obtain ⟨y, hy⟩ := Multiset.card_pos_iff_exists_mem.mp hRpos
    have htop := hle s hs y hy
    rw [hp.key_sentinel] at htop
    exact absurd (hp.key_lt y (hA ▸ Multiset.mem_add.mpr (Or.inr hy))) (not_lt.mpr htop)
  · intro hlt
    rw [hp.elems_eq_of_card_lt hlt]
    exact Multiset.mem_cons_self s A

theorem topKey_eq_top_iff (hp : Primed k s A h) : topKey h = ⊤ ↔ A.card < k := by
  rw [← hp.sentinel_mem_iff]
  constructor
  · intro htop
    obtain ⟨c, hc, hkey⟩ := exists_topKey hp.elems_ne_zero
    rcases Multiset.mem_cons.mp (Multiset.mem_of_le hp.kept.le hc) with rfl | hA
    · exact hc
    · exact absurd (hkey.trans htop) (hp.key_lt c hA).ne
  · intro hs
    exact top_le_iff.mp (hp.key_sentinel ▸ le_topKey hs)

/-- Entries that no kept entry exceeds may be counted in without an insertion. -/
theorem settle (hp : Primed k s A h) {B : Multiset C} (hB : ∀ y ∈ B, topKey h ≤ key y)
    (hlt : ∀ y ∈ B, key y < ⊤) : Primed k s (B + A) h := by
  refine ⟨hp.pos, hp.key_sentinel, ?_, ?_⟩
  · intro x hx
    rcases Multiset.mem_add.mp hx with hx | hx
    · exact hlt x hx
    · exact hp.key_lt x hx
  · rcases Multiset.empty_or_exists_mem B with rfl | ⟨y, hy⟩
    · simpa using hp.kept
    · have hfull : ¬ A.card < k := by
        rw [← hp.topKey_eq_top_iff]
        exact ((hB y hy).trans_lt (hlt y hy)).ne
      have hcard : (elems h).card = k := by
        rw [hp.kept.card_eq, Multiset.card_cons]
        omega
      rw [← Multiset.add_cons]
      exact hp.kept.add_left hcard fun y hy x hx => (le_topKey hx).trans (hB y hy)

theorem offer (hp : Primed k s A h) {c : C} (hc : key c < ⊤) :
    Primed k s (c ::ₘ A) (Lib.offer k c h) where
  pos := hp.pos
  key_sentinel := hp.key_sentinel
  key_lt x hx := by
    rcases Multiset.mem_cons.mp hx with rfl | hx
    · exact hc
    · exact hp.key_lt x hx
  kept := Multiset.cons_swap c s A ▸ offer_isKSmallest hp.pos hp.kept c

/-- A bounded insertion never raises the greatest key. -/
theorem topKey_offer_le (hp : Primed k s A h) (c : C) : topKey (Lib.offer k c h) ≤ topKey h := by
  by_cases hroom : A.card < k
  · rw [hp.topKey_eq_top_iff.mpr hroom]
    exact le_top
  · have hsize : ¬ size h < k := by
      have := hp.kept.card_eq
      rw [Multiset.card_cons] at this
      rw [size_eq]
      omega
    rw [Lib.offer]
    split
    · rename_i hlt
      have hlt : key c < topKey h := hlt.resolve_left hsize
      obtain ⟨t, ht⟩ := exists_top? hp.elems_ne_zero
      rw [if_pos (by omega)]
      refine topKey_le (by simp) ?_
      intro x hx
      rw [elems_push] at hx
      rcases Multiset.mem_cons.mp hx with rfl | hx
      · exact hlt.le
      · exact le_topKey (elems_pop h t ht ▸ Multiset.mem_cons_of_mem hx)
    · exact le_rfl

theorem offerAll (hp : Primed k s A h) {cs : List C} (hcs : ∀ c ∈ cs, key c < ⊤) :
    Primed k s (cs + A) (Lib.offerAll k cs h) ∧ topKey (Lib.offerAll k cs h) ≤ topKey h := by
  induction cs generalizing A h with
  | nil => exact ⟨by simpa using hp, le_rfl⟩
  | cons c cs ih =>
    have hstep := hp.offer (hcs c List.mem_cons_self)
    obtain ⟨hprimed, htop⟩ := ih hstep fun x hx => hcs x (List.mem_cons_of_mem _ hx)
    refine ⟨?_, htop.trans (hp.topKey_offer_le c)⟩
    simpa [← Multiset.cons_coe, Multiset.cons_add, Multiset.add_cons] using hprimed

end Primed

/-! ## Reading the result -/

/-- Remove the greatest entry if its key is `⊤`. -/
def popSentinel (h : H) : H :=
  match top? h with
  | none => h
  | some c => if key c = ⊤ then pop h else h

theorem Primed.popSentinel_isKSmallest {k : Nat} {s : C} {A : Multiset C} {h : H}
    (hp : Primed k s A h) : IsKSmallest key k A (elems (popSentinel h)) := by
  obtain ⟨c, hc⟩ := exists_top? hp.elems_ne_zero
  simp only [popSentinel, hc]
  by_cases hlt : A.card < k
  · -- only the sentinel has key `⊤`
    have htop : key c = ⊤ := (topKey_of_top? hc).symm.trans (hp.topKey_eq_top_iff.mpr hlt)
    have helems := hp.elems_eq_of_card_lt hlt
    obtain rfl : c = s := by
      rcases Multiset.mem_cons.mp (helems ▸ mem_of_top? hc) with hcs | hcA
      · exact hcs
      · exact absurd htop (hp.key_lt c hcA).ne
    rw [if_pos htop, (Multiset.cons_inj_right c).mp ((elems_pop h c hc).trans helems)]
    exact IsKSmallest.self hlt.le
  · have hne : key c ≠ ⊤ := fun htop =>
      hlt (hp.topKey_eq_top_iff.mp ((topKey_of_top? hc).trans htop))
    rw [if_neg hne]
    obtain ⟨R, hR, hcard, hle⟩ := hp.kept
    have hs : s ∈ R := by
      have hmem : s ∈ elems h + R := hR ▸ Multiset.mem_cons_self s A
      exact (Multiset.mem_add.mp hmem).resolve_left fun hs => hlt (hp.sentinel_mem_iff.mp hs)
    obtain ⟨R', rfl⟩ := Multiset.exists_cons_of_mem hs
    rw [Multiset.add_cons] at hR
    refine ⟨R', (Multiset.cons_inj_right s).mp hR, ?_, fun x hx y hy =>
      hle x hx y (Multiset.mem_cons_of_mem hy)⟩
    rw [hcard, Multiset.card_cons]
    omega

/-- What is read when entries were dropped because of the greatest key. -/
theorem Primed.popSentinel_isNearlyKSmallest {k : Nat} {s : C} {A B : Multiset C} {h : H}
    {near : C → C → Prop} (hp : Primed k s A h)
    (hA : ∀ x ∈ A, ∀ y ∈ A, key x ≤ key y → near x y)
    (hB : ∀ y ∈ B, topKey h ≠ ⊤ ∧ ∀ x ∈ A, key x ≤ topKey h → near x y) :
    IsNearlyKSmallest near k (A + B) (elems (popSentinel h)) := by
  have hkept := hp.popSentinel_isKSmallest
  refine hkept.isNearlyKSmallest_add hA fun y hy => ?_
  obtain ⟨htop, hnear⟩ := hB y hy
  constructor
  · have hfull := mt hp.topKey_eq_top_iff.mpr htop
    rw [hkept.card_eq]
    omega
  · intro x hx
    have hpop : popSentinel h = h := by
      obtain ⟨c, hc⟩ := exists_top? hp.elems_ne_zero
      simp only [popSentinel, hc]
      exact if_neg fun hkey => htop ((topKey_of_top? hc).trans hkey)
    refine hnear x (Multiset.mem_of_le hkept.le hx) (le_topKey ?_)
    rwa [hpop] at hx

end PDXearch.Lib
