import PDXearch.Lib.KSmallest
import Mathlib.Data.Multiset.Filter
import Mathlib.Data.List.Sort
import Mathlib.Order.WithBot
import Mathlib.Algebra.Order.Group.Nat

/-!
# Slices of an ordered multiset

The entries of a multiset are ordered by a key, `⊤` being the key of entries without one (NULL).
`IsTopN` are the slices that start at an offset, `IsNearest` the first entries among those with a
key; ties are resolved in any way. The two agree under every resolution of the ties exactly when
the offset is zero and no entry without a key gets into the slice, or when there is nothing to tell
apart.
-/

namespace PDXearch.Lib

/-- Where entries without a key stand. -/
inductive NullOrder
  | nullsFirst
  | nullsLast
  deriving DecidableEq

section Split

variable {C : Type} {r : C → C → Prop}

/-- In an ordered list the entries of a property that is inherited downwards come first. -/
theorem filter_append_filter_not {p : C → Prop} [DecidablePred p]
    (hp : ∀ a b, r a b → p b → p a) {l : List C} (hl : l.Pairwise r) :
    l.filter (fun a => p a) ++ l.filter (fun a => ¬ p a) = l := by
  induction l with
  | nil => rfl
  | cons a l ih =>
    obtain ⟨ha, hl⟩ := List.pairwise_cons.mp hl
    by_cases hpa : p a
    · rw [List.filter_cons_of_pos (by simpa using hpa), List.filter_cons_of_neg (by simpa using hpa),
        List.cons_append, ih hl]
    · have hnone : ∀ b ∈ a :: l, ¬ p b := by
        refine List.forall_mem_cons.mpr ⟨hpa, fun b hb hpb => hpa (hp a b (ha b hb) hpb)⟩
      rw [List.filter_eq_nil_iff.mpr (by simpa using hnone),
        List.filter_eq_self.mpr (by simpa using hnone), List.nil_append]

theorem getElem_mono {E : Type} [Preorder E] {l : List E} (hl : l.Pairwise (· ≤ ·)) {i j : Nat}
    (hi : i < l.length) (hj : j < l.length) (hij : i ≤ j) : l[i] ≤ l[j] := by
  rcases hij.eq_or_lt with rfl | hlt
  · exact le_rfl
  · exact List.pairwise_iff_getElem.mp hl i j hi hj hlt

/-- An ordered list that agrees with itself shifted by `o` on its first `L` entries is constant up to
there: entry `j` is entry `j - o`, and the first `o` entries are enclosed by entries `0` and `o`. -/
theorem getElem?_eq_of_shift {E : Type} [PartialOrder E] {l : List E} (hl : l.Pairwise (· ≤ ·))
    {L o : Nat} (hL : 0 < L) (ho : 0 < o) (hlength : o + L ≤ l.length)
    (hshift : ∀ i < L, l[i]? = l[o + i]?) : ∀ j < L + o, l[j]? = l[0]? := by
  intro j
  induction j using Nat.strong_induction_on with
  | _ j ih =>
    intro hj
    rcases Nat.lt_or_ge j o with hjo | hjo
    · have hsame := hshift 0 hL
      rw [Nat.add_zero, List.getElem?_eq_getElem (by omega), List.getElem?_eq_getElem (by omega),
        Option.some_inj] at hsame
      rw [List.getElem?_eq_getElem (by omega), List.getElem?_eq_getElem (by omega), Option.some_inj]
      exact le_antisymm ((getElem_mono hl (by omega) (by omega) hjo.le).trans hsame.ge)
        (getElem_mono hl (by omega) (by omega) (Nat.zero_le j))
    · have hback := hshift (j - o) (by omega)
      rw [Nat.add_sub_cancel' hjo] at hback
      rw [← hback]
      exact ih (j - o) (by omega) (by omega)

end Split

section Slices

variable {C D : Type} [LinearOrder D] (key : C → WithTop D)

/-- `a` may stand before `b`. -/
def NullOrder.Before : NullOrder → C → C → Prop
  | .nullsLast, a, b => key a ≤ key b
  | .nullsFirst, a, b => key a = ⊤ ∨ key b ≠ ⊤ ∧ key a ≤ key b

/-- The entries from position `o` up to `o + L` of the entries of `A` in order. -/
def IsTopN (nulls : NullOrder) (L o : Nat) (A : Multiset C) (out : List C) : Prop :=
  ∃ sorted : List C, (sorted : Multiset C) = A ∧ sorted.Pairwise (nulls.Before key) ∧
    out = (sorted.drop o).take L

/-- The first `L` of the entries of `A` that have a key, in order. -/
def IsNearest (L : Nat) (A : Multiset C) (out : List C) : Prop :=
  ∃ sorted : List C, (sorted : Multiset C) = A.filter (fun a => key a ≠ ⊤) ∧
    sorted.Pairwise (fun a b => key a ≤ key b) ∧ out = sorted.take L

/-- The number of entries with the least key. -/
def ties (A : Multiset C) : Nat := (A.filter fun a => key a ≠ ⊤ ∧ ∀ b ∈ A, key a ≤ key b).card

variable {key}

theorem exists_ordered (key : C → WithTop D) (A : Multiset C) :
    ∃ sorted : List C, (sorted : Multiset C) = A ∧ sorted.Pairwise fun a b => key a ≤ key b := by
  induction A using Quotient.inductionOn with
  | h l =>
    refine ⟨l.insertionSort fun a b => key a ≤ key b,
      Multiset.coe_eq_coe.mpr (List.perm_insertionSort _ l), ?_⟩
    exact (List.pairwise_insertionSort (fun a b => key a ≤ key b) l)

/-- An ordering with the entries without a key last. -/
theorem isTopN_nullsLast_iff {L o : Nat} {A : Multiset C} {out : List C} :
    IsTopN key .nullsLast L o A out ↔ ∃ s n : List C,
      (s : Multiset C) = A.filter (fun a => key a ≠ ⊤) ∧ s.Pairwise (fun a b => key a ≤ key b) ∧
      (n : Multiset C) = A.filter (fun a => ¬ key a ≠ ⊤) ∧ out = ((s ++ n).drop o).take L := by
  constructor
  · rintro ⟨sorted, rfl, hsorted, rfl⟩
    have hsplit := filter_append_filter_not (p := fun a => key a ≠ ⊤)
      (fun a b (hab : key a ≤ key b) hb => ne_top_of_le_ne_top hb hab) hsorted
    exact ⟨_, _, rfl, hsorted.filter _, rfl, by rw [hsplit]⟩
  · rintro ⟨s, n, hs, hsorted, hn, rfl⟩
    refine ⟨s ++ n, ?_, ?_, rfl⟩
    · rw [← Multiset.coe_add, hs, hn, Multiset.filter_add_not]
    · refine List.pairwise_append.mpr ⟨hsorted, ?_, fun a _ b hb => ?_⟩
      · refine List.pairwise_iff_forall_sublist.mpr fun {a b} hab => ?_
        have hb : b ∈ (n : Multiset C) := Multiset.mem_coe.mpr (hab.subset (by simp))
        rw [hn, Multiset.mem_filter, not_not] at hb
        exact le_top.trans_eq hb.2.symm
      · have hb : b ∈ (n : Multiset C) := Multiset.mem_coe.mpr hb
        rw [hn, Multiset.mem_filter, not_not] at hb
        exact le_top.trans_eq hb.2.symm

/-- An ordering with the entries without a key first. -/
theorem isTopN_nullsFirst_iff {L o : Nat} {A : Multiset C} {out : List C} :
    IsTopN key .nullsFirst L o A out ↔ ∃ s n : List C,
      (s : Multiset C) = A.filter (fun a => key a ≠ ⊤) ∧ s.Pairwise (fun a b => key a ≤ key b) ∧
      (n : Multiset C) = A.filter (fun a => ¬ key a ≠ ⊤) ∧ out = ((n ++ s).drop o).take L := by
  constructor
  · rintro ⟨sorted, rfl, hsorted, rfl⟩
    have hsplit := filter_append_filter_not (p := fun a => ¬ key a ≠ ⊤) (fun a b hab hb => by
      rcases hab with ha | ⟨hb', -⟩
      · exact not_not.mpr ha
      · exact absurd hb' hb) hsorted
    simp only [not_not] at hsplit
    refine ⟨sorted.filter fun a => key a ≠ ⊤, _, rfl, ?_, rfl, ?_⟩
    · refine (hsorted.filter _).imp_of_mem fun {a b} ha _ hab => ?_
      have ha := (List.mem_filter.mp ha).2
      exact (hab.resolve_left (by simpa using ha)).2
    · simp only [not_not]
      rw [hsplit]
  · rintro ⟨s, n, hs, hsorted, hn, rfl⟩
    have hnull : ∀ a ∈ n, key a = ⊤ := fun a ha => by
      have ha : a ∈ (n : Multiset C) := Multiset.mem_coe.mpr ha
      rw [hn, Multiset.mem_filter, not_not] at ha
      exact ha.2
    have hvalid : ∀ a ∈ s, key a ≠ ⊤ := fun a ha => by
      have ha : a ∈ (s : Multiset C) := Multiset.mem_coe.mpr ha
      rw [hs, Multiset.mem_filter] at ha
      exact ha.2
    refine ⟨n ++ s, ?_, ?_, rfl⟩
    · rw [← Multiset.coe_add, hs, hn, Multiset.add_comm, Multiset.filter_add_not]
    · refine List.pairwise_append.mpr ⟨?_, ?_, fun a ha b _ => Or.inl (hnull a ha)⟩
      · exact List.pairwise_iff_forall_sublist.mpr fun {a b} hab =>
          Or.inl (hnull a (hab.subset (by simp)))
      · exact hsorted.imp_of_mem fun {a b} _ hb hab => Or.inr ⟨hvalid b hb, hab⟩

/-! ## When a slice is the nearest entries -/

/-- The exact condition for entries without a key last: `m` entries with a key, `z` without one, and
`t` at the least key. -/
def SliceIsPrefix (L o m z t : Nat) : Prop :=
  L = 0 ∨ (o = 0 ∧ (L ≤ m ∨ z = 0)) ∨ (m = 0 ∧ z ≤ o) ∨ L + o ≤ t

/-- The entries at the least key come first. -/
theorem least_of_mem_take {A : Multiset C} {s : List C}
    (hs : (s : Multiset C) = A.filter (fun a => key a ≠ ⊤))
    (hsorted : s.Pairwise fun a b => key a ≤ key b) {i : Nat} (hi : i ≤ ties key A) :
    i ≤ s.length ∧ ∀ a ∈ s.take i, ∀ b ∈ A, key a ≤ key b := by
  have hsplit := filter_append_filter_not (p := fun a => ∀ b ∈ A, key a ≤ key b)
    (fun a b (hab : key a ≤ key b) hb c hc => hab.trans (hb c hc)) hsorted
  have hlength : (s.filter fun a => ∀ b ∈ A, key a ≤ key b).length = ties key A := by
    rw [ties, ← Multiset.filter_filter, ← Multiset.coe_card, ← Multiset.filter_coe, hs,
      Multiset.filter_filter, Multiset.filter_filter]
    congr 2
    funext a
    rw [and_comm]
  have htake : s.take i <+: s.filter fun a => ∀ b ∈ A, key a ≤ key b := by
    rw [← hlength] at hi
    refine List.prefix_of_prefix_length_le (List.take_prefix i s) ⟨_, hsplit⟩ ?_
    exact (List.length_take_le i s).trans hi
  refine ⟨?_, fun a ha => ?_⟩
  · exact (hlength ▸ hi).trans (List.length_filter_le _ _)
  · exact of_decide_eq_true (List.mem_filter.mp (htake.subset ha)).2

/-- Among ties the entries may change places. -/
theorem exists_rotated {A : Multiset C} {s : List C}
    (hs : (s : Multiset C) = A.filter (fun a => key a ≠ ⊤))
    (hsorted : s.Pairwise fun a b => key a ≤ key b) {i j : Nat} (h : i + j ≤ ties key A) :
    ((s.drop i).take j).length = j ∧
      ((((s.drop i).take j ++ s.take i) ++ s.drop (i + j) : List C) : Multiset C) =
        A.filter (fun a => key a ≠ ⊤) ∧
      (((s.drop i).take j ++ s.take i) ++ s.drop (i + j)).Pairwise fun a b => key a ≤ key b := by
  obtain ⟨hlength, hleast⟩ := least_of_mem_take hs hsorted h
  have htake : s.take (i + j) = s.take i ++ (s.drop i).take j := List.take_add
  have hmem : ∀ a ∈ s, a ∈ A := fun a ha => by
    have ha : a ∈ (s : Multiset C) := Multiset.mem_coe.mpr ha
    rw [hs] at ha
    exact Multiset.mem_of_mem_filter ha
  refine ⟨?_, ?_, ?_⟩
  · rw [List.length_take, List.length_drop]
    omega
  · rw [← hs, Multiset.coe_eq_coe]
    refine ((List.perm_append_comm).append_right _).trans ?_
    rw [← htake, List.take_append_drop]
  · have hfirst : ∀ a ∈ (s.drop i).take j ++ s.take i, ∀ b ∈ A, key a ≤ key b := by
      intro a ha
      refine hleast a ?_
      rw [htake, List.mem_append]
      exact (List.mem_append.mp ha).symm
    have hin : ∀ a ∈ (s.drop i).take j ++ s.take i, a ∈ A := by
      intro a ha
      rcases List.mem_append.mp ha with ha | ha
      · exact hmem a (List.mem_of_mem_drop (List.mem_of_mem_take ha))
      · exact hmem a (List.mem_of_mem_take ha)
    refine List.pairwise_append.mpr ⟨?_, hsorted.drop, fun a ha b hb => ?_⟩
    · refine List.pairwise_iff_forall_sublist.mpr fun {a b} hab => ?_
      exact hfirst a (hab.subset (by simp)) b (hin b (hab.subset (by simp)))
    · exact hfirst a ha b (hmem b (List.mem_of_mem_drop hb))

/-- Slice and prefix are the same if no order of the entries tells them apart. -/
theorem isNearest_iff_of_same {L o : Nat} {A : Multiset C}
    (hsame : ∀ s n : List C, (s : Multiset C) = A.filter (fun a => key a ≠ ⊤) →
      (n : Multiset C) = A.filter (fun a => ¬ key a ≠ ⊤) → ((s ++ n).drop o).take L = s.take L)
    (out : List C) : IsNearest key L A out ↔ IsTopN key .nullsLast L o A out := by
  rw [isTopN_nullsLast_iff]
  constructor
  · rintro ⟨s, hs, hsorted, rfl⟩
    obtain ⟨n, hn, -⟩ := exists_ordered key (A.filter fun a => ¬ key a ≠ ⊤)
    exact ⟨s, n, hs, hsorted, hn, (hsame s n hs hn).symm⟩
  · rintro ⟨s, n, hs, hsorted, hn, rfl⟩
    exact ⟨s, hs, hsorted, hsame s n hs hn⟩

/-- If the condition holds, slice and prefix are the same under every resolution of the ties. -/
theorem isNearest_iff_of_sliceIsPrefix {L o : Nat} {A : Multiset C}
    (h : SliceIsPrefix L o (A.filter fun a => key a ≠ ⊤).card (A.filter fun a => ¬ key a ≠ ⊤).card
      (ties key A)) (out : List C) :
    IsNearest key L A out ↔ IsTopN key .nullsLast L o A out := by
  have hlengths : ∀ {s n : List C}, (s : Multiset C) = A.filter (fun a => key a ≠ ⊤) →
      (n : Multiset C) = A.filter (fun a => ¬ key a ≠ ⊤) →
      s.length = (A.filter fun a => key a ≠ ⊤).card ∧
        n.length = (A.filter fun a => ¬ key a ≠ ⊤).card := fun hs hn =>
    ⟨by rw [← hs, Multiset.coe_card], by rw [← hn, Multiset.coe_card]⟩
  rcases h with rfl | ⟨rfl, hroom⟩ | ⟨hm, hz⟩ | hties
  · exact isNearest_iff_of_same (fun _ _ _ _ => rfl) out
  · refine isNearest_iff_of_same (fun s n hs hn => ?_) out
    obtain ⟨hlen, hlen'⟩ := hlengths hs hn
    rw [List.drop_zero]
    rcases hroom with hroom | hzero
    · exact List.take_append_of_le_length (hlen ▸ hroom)
    · rw [List.length_eq_zero_iff.mp (hlen'.trans hzero), List.append_nil]
  · refine isNearest_iff_of_same (fun s n hs hn => ?_) out
    obtain ⟨hlen, hlen'⟩ := hlengths hs hn
    rw [hm] at hlen
    rw [List.length_eq_zero_iff.mp hlen, List.nil_append, List.drop_of_length_le (hlen' ▸ hz)]
  · rw [isTopN_nullsLast_iff]
    constructor
    · rintro ⟨s, hs, hsorted, rfl⟩
      obtain ⟨n, hn, -⟩ := exists_ordered key (A.filter fun a => ¬ key a ≠ ⊤)
      obtain ⟨hlen, hmultiset, hpairwise⟩ := exists_rotated hs hsorted hties
      refine ⟨_, n, hmultiset, hpairwise, hn, ?_⟩
      have hL : (s.take L).length = L := by
        rw [List.length_take]
        have := (least_of_mem_take hs hsorted hties).1
        omega
      rw [List.append_assoc, List.append_assoc, List.drop_append_of_le_length hlen.ge,
        List.drop_of_length_le hlen.le, List.nil_append, List.take_append_of_le_length hL.ge,
        List.take_of_length_le hL.le]
    · rintro ⟨s, n, hs, hsorted, -, rfl⟩
      rw [add_comm] at hties
      obtain ⟨hlen, hmultiset, hpairwise⟩ := exists_rotated hs hsorted hties
      refine ⟨_, hmultiset, hpairwise, ?_⟩
      have hle := (least_of_mem_take hs hsorted hties).1
      rw [List.append_assoc, List.take_append_of_le_length hlen.ge, List.take_of_length_le hlen.le,
        List.drop_append_of_le_length (by omega),
        List.take_append_of_le_length (by rw [List.length_drop]; omega)]

omit [LinearOrder D] in
/-- A slice past the beginning that has keys throughout ends among the entries with one. -/
theorem slice_le_length {L o : Nat} {s s' n : List C} (hlength : s.length = s'.length)
    (hvalid : ∀ a ∈ s, key a ≠ ⊤) (hnull : ∀ a ∈ n, key a = ⊤) (hL : 0 < L) (ho : 0 < o)
    (hm : 0 < s.length) (hget : ∀ i < L, s[i]? = (s' ++ n)[o + i]?) : o + L ≤ s.length := by
  by_contra hroom
  have hlt : min (L - 1) (s.length - 1) < s.length := by omega
  have hlast := hget (min (L - 1) (s.length - 1)) (by omega)
  rw [List.getElem?_eq_getElem hlt, List.getElem?_append_right (by omega), eq_comm] at hlast
  exact hvalid _ (List.getElem_mem hlt) (hnull _ (List.mem_of_getElem? hlast))

/-- Entries at the beginning that share the first key are ties. -/
theorem le_ties {m : Nat} {A : Multiset C} {s : List C}
    (hs : (s : Multiset C) = A.filter (fun a => key a ≠ ⊤))
    (hsorted : s.Pairwise fun a b => key a ≤ key b) (hm : m ≤ s.length)
    (hfirst : ∀ j < m, (s.map key)[j]? = (s.map key)[0]?) : m ≤ ties key A := by
  have hle : ((s.take m : List C) : Multiset C) ≤
      A.filter fun a => key a ≠ ⊤ ∧ ∀ b ∈ A, key a ≤ key b := by
    have hsub : ((s.take m : List C) : Multiset C) ≤ (s : Multiset C) :=
      Multiset.coe_le.mpr (List.take_sublist _ _).subperm
    refine Multiset.le_filter.mpr ⟨hsub.trans (hs ▸ Multiset.filter_le _ _), fun a ha => ?_⟩
    have hvalid := Multiset.mem_of_le hsub ha
    rw [hs, Multiset.mem_filter] at hvalid
    refine ⟨hvalid.2, fun b hb => ?_⟩
    by_cases hkey : key b = ⊤
    · exact le_top.trans_eq hkey.symm
    · have hb : b ∈ (s : Multiset C) := hs ▸ Multiset.mem_filter.mpr ⟨hb, hkey⟩
      obtain ⟨i, hi, rfl⟩ := List.getElem_of_mem (Multiset.mem_coe.mp hb)
      obtain ⟨j, hj, rfl⟩ := List.getElem_of_mem (Multiset.mem_coe.mp ha)
      rw [List.length_take] at hj
      rw [List.getElem_take]
      have hj0 := hfirst j (by omega)
      rw [List.getElem?_eq_getElem (by simp; omega), List.getElem?_eq_getElem (by simp; omega),
        Option.some_inj, List.getElem_map, List.getElem_map] at hj0
      have h0i := getElem_mono (List.pairwise_map.mpr hsorted) (i := 0) (j := i) (by simp; omega)
        (by simpa using hi) (Nat.zero_le i)
      rw [List.getElem_map, List.getElem_map] at h0i
      exact hj0.le.trans h0i
  have hcard := Multiset.card_le_card hle
  rw [Multiset.coe_card, List.length_take, min_eq_left hm] at hcard
  exact hcard

/-- If some slice is a prefix of the nearest entries, the condition holds. -/
theorem sliceIsPrefix_of_isTopN {L o : Nat} {A : Multiset C} {s : List C}
    (hs : (s : Multiset C) = A.filter (fun a => key a ≠ ⊤))
    (hsorted : s.Pairwise fun a b => key a ≤ key b) (h : IsTopN key .nullsLast L o A (s.take L)) :
    SliceIsPrefix L o (A.filter fun a => key a ≠ ⊤).card (A.filter fun a => ¬ key a ≠ ⊤).card
      (ties key A) := by
  obtain ⟨s', n', hs', hsorted', hn', hout⟩ := isTopN_nullsLast_iff.mp h
  rw [← hn', Multiset.coe_card, ← hs, Multiset.coe_card]
  have hkeys : s.map key = s'.map key := by
    refine List.Perm.eq_of_pairwise' (r := (· ≤ ·)) (List.pairwise_map.mpr hsorted)
      (List.pairwise_map.mpr hsorted') ?_
    exact (Multiset.coe_eq_coe.mp (hs.trans hs'.symm)).map key
  have hlength : s.length = s'.length := by simpa using congrArg List.length hkeys
  have hvalid : ∀ a ∈ s, key a ≠ ⊤ := fun a ha => by
    have ha : a ∈ (s : Multiset C) := Multiset.mem_coe.mpr ha
    rw [hs, Multiset.mem_filter] at ha
    exact ha.2
  have hnull : ∀ a ∈ n', key a = ⊤ := fun a ha => by
    have ha : a ∈ (n' : Multiset C) := Multiset.mem_coe.mpr ha
    rw [hn', Multiset.mem_filter, not_not] at ha
    exact ha.2
  have hget : ∀ i < L, s[i]? = (s' ++ n')[o + i]? := by
    intro i hi
    have := congrArg (·[i]?) hout
    simpa [List.getElem?_take, hi, List.getElem?_drop] using this
  rcases Nat.eq_zero_or_pos L with rfl | hL
  · exact Or.inl rfl
  rcases Nat.eq_zero_or_pos o with rfl | ho
  · refine Or.inr (Or.inl ⟨rfl, ?_⟩)
    by_contra hboth
    have hi := hget s.length (by omega)
    rw [List.getElem?_eq_none le_rfl, eq_comm, List.getElem?_eq_none_iff, List.length_append] at hi
    omega
  refine Or.inr (Or.inr ?_)
  rcases Nat.eq_zero_or_pos s.length with hm | hm
  · refine Or.inl ⟨hm, ?_⟩
    have hi := hget 0 hL
    rw [List.getElem?_eq_none hm.le, eq_comm, List.getElem?_eq_none_iff, List.length_append] at hi
    omega
  refine Or.inr ?_
  have hroom := slice_le_length hlength hvalid hnull hL ho hm hget
  have hstep : ∀ i < L, (s.map key)[i]? = (s.map key)[o + i]? := by
    intro i hi
    have hget' := hget i hi
    rw [List.getElem?_append_left (by omega)] at hget'
    rw [List.getElem?_map, hget', hkeys, List.getElem?_map]
  have hlength' : (s.map key).length = s.length := List.length_map _
  have hfirst := getElem?_eq_of_shift (List.pairwise_map.mpr hsorted) hL ho (by omega) hstep
  exact le_ties hs hsorted (by omega) hfirst

/-- Entries without a key last. -/
theorem isNearest_iff_nullsLast {L o : Nat} {A : Multiset C} :
    (∀ out, IsNearest key L A out ↔ IsTopN key .nullsLast L o A out) ↔
      SliceIsPrefix L o (A.filter fun a => key a ≠ ⊤).card
        (A.filter fun a => ¬ key a ≠ ⊤).card (ties key A) := by
  constructor
  · intro h
    obtain ⟨s, hs, hsorted⟩ := exists_ordered key (A.filter fun a => key a ≠ ⊤)
    exact sliceIsPrefix_of_isTopN hs hsorted ((h _).mp ⟨s, hs, hsorted, rfl⟩)
  · exact fun h out => isNearest_iff_of_sliceIsPrefix h out

theorem ties_filter (A : Multiset C) : ties key (A.filter fun a => key a ≠ ⊤) = ties key A := by
  rw [ties, ties, Multiset.filter_filter]
  congr 1
  refine Multiset.filter_congr fun a _ => ?_
  constructor
  · rintro ⟨⟨ha, hall⟩, -⟩
    refine ⟨ha, fun b hb => ?_⟩
    by_cases hkey : key b = ⊤
    · exact le_top.trans_eq hkey.symm
    · exact hall b (Multiset.mem_filter.mpr ⟨hb, hkey⟩)
  · rintro ⟨ha, hall⟩
    exact ⟨⟨ha, fun b hb => hall b (Multiset.mem_of_mem_filter hb)⟩, ha⟩

theorem filter_filter_null (A : Multiset C) :
    (A.filter fun a => key a ≠ ⊤).filter (fun a => ¬ key a ≠ ⊤) = 0 := by
  refine Multiset.filter_eq_nil.mpr fun a ha => ?_
  exact not_not.mpr (Multiset.mem_filter.mp ha).2

theorem isNearest_filter {L : Nat} {A : Multiset C} {out : List C} :
    IsNearest key L (A.filter fun a => key a ≠ ⊤) out ↔ IsNearest key L A out := by
  simp only [IsNearest, Multiset.filter_filter, and_self]

theorem mem_of_isNearest {L : Nat} {A : Multiset C} {out : List C} (h : IsNearest key L A out)
    {a : C} (ha : a ∈ out) : a ∈ A := by
  obtain ⟨sorted, hs, -, rfl⟩ := h
  have hmem := Multiset.mem_coe.mpr (List.mem_of_mem_take ha)
  exact Multiset.mem_of_mem_filter (hs ▸ hmem)

/-- Past the entries without a key the slice is one of the others. -/
theorem isTopN_nullsFirst_of_le {L o : Nat} {A : Multiset C} {out : List C}
    (hz : (A.filter fun a => ¬ key a ≠ ⊤).card ≤ o) :
    IsTopN key .nullsFirst L o A out ↔
      IsTopN key .nullsLast L (o - (A.filter fun a => ¬ key a ≠ ⊤).card)
        (A.filter fun a => key a ≠ ⊤) out := by
  have hdrop : ∀ s n : List C, (n : Multiset C) = A.filter (fun a => ¬ key a ≠ ⊤) →
      (n ++ s).drop o = s.drop (o - (A.filter fun a => ¬ key a ≠ ⊤).card) := by
    intro s n hn
    rw [← hn, Multiset.coe_card] at hz ⊢
    rw [List.drop_append, List.drop_of_length_le hz, List.nil_append]
  rw [isTopN_nullsFirst_iff, isTopN_nullsLast_iff, filter_filter_null]
  simp only [Multiset.filter_filter, and_self]
  constructor
  · rintro ⟨s, n, hs, hsorted, hn, rfl⟩
    exact ⟨s, [], hs, hsorted, rfl, by rw [hdrop s n hn, List.append_nil]⟩
  · rintro ⟨s, n, hs, hsorted, hn, rfl⟩
    obtain rfl := (Multiset.coe_eq_zero n).mp hn
    obtain ⟨n, hn', -⟩ := exists_ordered key (A.filter fun a => ¬ key a ≠ ⊤)
    exact ⟨s, n, hs, hsorted, hn', by rw [hdrop s n hn', List.append_nil]⟩

/-- Entries without a key first: the offset must be past all of them. -/
theorem isNearest_iff_nullsFirst {L o : Nat} {A : Multiset C} :
    (∀ out, IsNearest key L A out ↔ IsTopN key .nullsFirst L o A out) ↔
      L = 0 ∨ (A.filter fun a => ¬ key a ≠ ⊤).card ≤ o ∧
        SliceIsPrefix L (o - (A.filter fun a => ¬ key a ≠ ⊤).card)
          (A.filter fun a => key a ≠ ⊤).card 0 (ties key A) := by
  by_cases hz : (A.filter fun a => ¬ key a ≠ ⊤).card ≤ o
  · have hiff := @isNearest_iff_nullsLast C D _ key L (o - (A.filter fun a => ¬ key a ≠ ⊤).card)
      (A.filter fun a => key a ≠ ⊤)
    rw [filter_filter_null, ties_filter, Multiset.filter_filter] at hiff
    simp only [and_self, Multiset.card_zero] at hiff
    simp only [isTopN_nullsFirst_of_le hz, ← isNearest_filter (A := A)]
    rw [hiff]
    refine ⟨fun h => Or.inr ⟨hz, h⟩, ?_⟩
    rintro (rfl | ⟨-, h⟩)
    · exact Or.inl rfl
    · exact h
  · obtain ⟨s, hs, hsorted⟩ := exists_ordered key (A.filter fun a => key a ≠ ⊤)
    rcases Nat.eq_zero_or_pos L with rfl | hL
    · refine ⟨fun _ => Or.inl rfl, fun _ out => ?_⟩
      obtain ⟨n, hn, -⟩ := exists_ordered key (A.filter fun a => ¬ key a ≠ ⊤)
      constructor
      · rintro ⟨-, -, -, rfl⟩
        exact isTopN_nullsFirst_iff.mpr ⟨s, n, hs, hsorted, hn, rfl⟩
      · rintro ⟨-, -, -, rfl⟩
        exact ⟨s, hs, hsorted, rfl⟩
    · refine ⟨fun h => ?_, fun h => ?_⟩
      · -- the slice starts with an entry that has no key
        obtain ⟨s', n', -, -, hn', hout⟩ :=
          isTopN_nullsFirst_iff.mp ((h _).mp ⟨s, hs, hsorted, rfl⟩)
        rw [← hn', Multiset.coe_card] at hz
        have hget := congrArg (·[0]?) hout
        simp only [List.getElem?_take_of_lt hL, List.getElem?_drop, Nat.add_zero] at hget
        rw [List.getElem?_append_left (by omega), List.getElem?_eq_getElem (l := n') (by omega)] at hget
        have hmem : n'[o] ∈ (s : Multiset C) := Multiset.mem_coe.mpr (List.mem_of_getElem? hget)
        have hnull : n'[o] ∈ (n' : Multiset C) := Multiset.mem_coe.mpr (List.getElem_mem _)
        rw [hs, Multiset.mem_filter] at hmem
        rw [hn', Multiset.mem_filter] at hnull
        exact absurd hmem.2 hnull.2
      · rcases h with rfl | ⟨hle, -⟩
        · exact absurd hL (lt_irrefl 0)
        · exact absurd hle hz

/-- The exact condition: `m` entries with a key, `z` without one, and `t` at the least key. -/
def SliceIsNearest : NullOrder → (L o m z t : Nat) → Prop
  | .nullsLast, L, o, m, z, t => SliceIsPrefix L o m z t
  | .nullsFirst, L, o, m, z, t => L = 0 ∨ z ≤ o ∧ SliceIsPrefix L (o - z) m 0 t

theorem isNearest_iff_isTopN (nulls : NullOrder) (L o : Nat) (A : Multiset C) :
    (∀ out, IsNearest key L A out ↔ IsTopN key nulls L o A out) ↔
      SliceIsNearest nulls L o (A.filter fun a => key a ≠ ⊤).card
        (A.filter fun a => ¬ key a ≠ ⊤).card (ties key A) := by
  cases nulls with
  | nullsFirst => exact isNearest_iff_nullsFirst
  | nullsLast => exact isNearest_iff_nullsLast

/-! ## Images -/

/-- An enumeration of the image of a multiset is the image of an enumeration. -/
theorem exists_map_eq {C' : Type} {π : C → C'} {A : Multiset C} {l : List C'}
    (h : (l : Multiset C') = A.map π) : ∃ l' : List C, (l' : Multiset C) = A ∧ l'.map π = l := by
  induction l generalizing A with
  | nil =>
    rw [Multiset.coe_nil, eq_comm, Multiset.map_eq_zero] at h
    exact ⟨[], h.symm, rfl⟩
  | cons b l ih =>
    rw [← Multiset.cons_coe, eq_comm] at h
    have hb : b ∈ A.map π := h ▸ Multiset.mem_cons_self _ _
    obtain ⟨a, ha, rfl⟩ := Multiset.mem_map.mp hb
    obtain ⟨A, rfl⟩ := Multiset.exists_cons_of_mem ha
    rw [Multiset.map_cons, Multiset.cons_inj_right] at h
    obtain ⟨l', rfl, rfl⟩ := ih h.symm
    exact ⟨a :: l', rfl, rfl⟩

/-- The nearest entries of an image are images of nearest entries. -/
theorem isNearest_map_iff {C' : Type} {π : C → C'} {key' : C' → WithTop D} {L : Nat}
    {A : Multiset C} (h : ∀ a ∈ A, key' (π a) = key a) {out : List C'} :
    IsNearest key' L (A.map π) out ↔ ∃ hits, IsNearest key L A hits ∧ out = hits.map π := by
  have hfilter : (A.map π).filter (fun a => key' a ≠ ⊤) =
      (A.filter fun a => key a ≠ ⊤).map π := by
    rw [Multiset.filter_map]
    congr 1
    exact Multiset.filter_congr fun a ha => by rw [Function.comp_apply, h a ha]
  have hmem : ∀ {l : List C}, (l : Multiset C) = A.filter (fun a => key a ≠ ⊤) → ∀ a ∈ l, a ∈ A :=
    fun hl a ha => Multiset.mem_of_mem_filter (hl ▸ Multiset.mem_coe.mpr ha)
  constructor
  · rintro ⟨sorted, hs, hsorted, rfl⟩
    obtain ⟨l, hl, rfl⟩ := exists_map_eq (hs.trans hfilter)
    refine ⟨l.take L, ⟨l, hl, ?_, rfl⟩, List.map_take.symm⟩
    refine (List.pairwise_map.mp hsorted).imp_of_mem fun {a b} ha hb hab => ?_
    rwa [h a (hmem hl a ha), h b (hmem hl b hb)] at hab
  · rintro ⟨-, ⟨l, hl, hsorted, rfl⟩, rfl⟩
    refine ⟨l.map π, ?_, ?_, List.map_take⟩
    · rw [hfilter, ← hl, Multiset.map_coe]
    · refine List.pairwise_map.mpr (hsorted.imp_of_mem fun {a b} ha hb hab => ?_)
      rwa [h a (hmem hl a ha), h b (hmem hl b hb)]

/-- The condition for an image, read off the entries themselves. -/
theorem isNearest_map_iff_isTopN_map {C' : Type} {π : C → C'} {key' : C' → WithTop D}
    (nulls : NullOrder) (L o : Nat) {A : Multiset C} (h : ∀ a ∈ A, key' (π a) = key a) :
    (∀ out, IsNearest key' L (A.map π) out ↔ IsTopN key' nulls L o (A.map π) out) ↔
      SliceIsNearest nulls L o (A.filter fun a => key a ≠ ⊤).card
        (A.filter fun a => ¬ key a ≠ ⊤).card (ties key A) := by
  have hcard : ∀ (p : C' → Prop) (q : C → Prop) [DecidablePred p] [DecidablePred q],
      (∀ a ∈ A, p (π a) ↔ q a) → ((A.map π).filter p).card = (A.filter q).card := by
    intro p q _ _ hpq
    rw [Multiset.filter_map, Multiset.card_map]
    exact congrArg _ (Multiset.filter_congr hpq)
  rw [isNearest_iff_isTopN, hcard _ (fun a => key a ≠ ⊤) fun a ha => by rw [h a ha],
    hcard _ (fun a => ¬ key a ≠ ⊤) fun a ha => by rw [h a ha], ties,
    hcard _ (fun a => key a ≠ ⊤ ∧ ∀ b ∈ A, key a ≤ key b) fun a ha => ?_, ties]
  rw [h a ha, Multiset.forall_mem_map_iff]
  exact and_congr_right fun _ => forall₂_congr fun b hb => by rw [h b hb]

/-! ## From the smallest entries -/

/-- The smallest of the entries with a key are the nearest ones, once they are in order. -/
theorem isNearest_of_isKSmallest {L : Nat} {A : Multiset C} {out : List C}
    (h : IsKSmallest key L (A.filter fun a => key a ≠ ⊤) (out : Multiset C))
    (hsorted : out.Pairwise fun a b => key a ≤ key b) : IsNearest key L A out := by
  obtain ⟨R, hA, hcard, hle⟩ := h
  obtain ⟨rest, rfl, hrest⟩ := exists_ordered key R
  rw [Multiset.coe_add] at hA
  refine ⟨out ++ rest, hA.symm, ?_, ?_⟩
  · exact List.pairwise_append.mpr ⟨hsorted, hrest, fun a ha b hb =>
      hle a (Multiset.mem_coe.mpr ha) b (Multiset.mem_coe.mpr hb)⟩
  · rw [hA, Multiset.coe_card, Multiset.coe_card, List.length_append] at hcard
    by_cases hfull : out.length = L
    · rw [← hfull, List.take_left]
    · have hnil : rest = [] := List.length_eq_zero_iff.mp (by omega)
      rw [hnil, List.append_nil, List.take_of_length_le (by omega)]

end Slices

end PDXearch.Lib
