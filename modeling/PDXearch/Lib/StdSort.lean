import PDXearch.Lib.KSmallest
import Mathlib.Data.List.TakeDrop

/-!
# The sorting functions of a standard library

`std::sort` and `std::partial_sort` of a range of indices by a key. Neither is stable, so where
keys are equal the order is the implementation's: a `StdSort` is any pair of functions that do
what the standard says. Selection by a key follows: the first `m` entries after a partial sort
have keys no greater than those of the others.
-/

namespace PDXearch.Lib

/-- The first `m` entries of `xs` are in ascending order of `key` and none of the others has a
smaller key. -/
def SortedUpTo {D : Type} [LinearOrder D] (key : Nat → D) (m : Nat) (xs : List Nat) : Prop :=
  (xs.take m).Pairwise (fun a b => key a ≤ key b) ∧
    ∀ a ∈ xs.take m, ∀ b ∈ xs.drop m, key a ≤ key b

namespace SortedUpTo

variable {D : Type} [LinearOrder D] {key : Nat → D} {m : Nat} {xs : List Nat}

theorem isKSmallest (h : SortedUpTo key m xs) :
    IsKSmallest key m (xs : Multiset Nat) (xs.take m : List Nat) := by
  refine ⟨(xs.drop m : List Nat), ?_, by simp, fun a ha b hb => h.2 a ha b hb⟩
  rw [Multiset.coe_add, List.take_append_drop]

variable {P : Nat → Prop} [DecidablePred P] (hlow : ∀ a ∈ xs, P a → ∀ b ∈ xs, ¬ P b → key a < key b)
  (hm : m ≤ (xs.filter P).length)

include hlow hm in
/-- When enough entries are of a kind with smaller keys, the first ones are all of that kind. -/
theorem of_mem_take (h : SortedUpTo key m xs) : ∀ a ∈ xs.take m, P a := by
  intro a ha
  by_contra hPa
  have hrest : (xs.drop m).filter P = [] := by
    refine List.filter_eq_nil_iff.mpr fun b hb => ?_
    rw [decide_eq_true_eq]
    intro hPb
    have hlt := hlow b (List.mem_of_mem_drop hb) hPb a (List.mem_of_mem_take ha) hPa
    exact absurd (h.2 a ha b hb) (not_le.mpr hlt)
  have hlt : ((xs.take m).filter P).length < (xs.take m).length :=
    List.length_filter_lt_length_iff_exists.mpr ⟨a, ha, by simpa using hPa⟩
  rw [← List.take_append_drop m xs, List.filter_append, hrest, List.append_nil] at hm
  rw [List.length_take] at hlt
  omega

include hlow hm in
theorem isKSmallest_filter (h : SortedUpTo key m xs) :
    IsKSmallest key m (xs.filter P : List Nat) (xs.take m : List Nat) := by
  have hall := h.of_mem_take hlow hm
  have hfilter : xs.filter P = xs.take m ++ (xs.drop m).filter P := by
    conv_lhs => rw [← List.take_append_drop m xs, List.filter_append]
    rw [List.filter_eq_self.mpr fun a ha => by simpa using hall a ha]
  have hlen : (xs.filter P).length ≤ xs.length := List.length_filter_le _ _
  refine ⟨((xs.drop m).filter P : List Nat), ?_, ?_, fun a ha b hb => ?_⟩
  · rw [hfilter, Multiset.coe_add]
  · rw [Multiset.coe_card, Multiset.coe_card, List.length_take]
    omega
  · exact h.2 a ha b (List.mem_filter.mp hb).1

end SortedUpTo

/-- An implementation of the sorting functions. -/
structure StdSort where
  sort : {D : Type} → [LinearOrder D] → (Nat → D) → List Nat → List Nat
  partialSort : {D : Type} → [LinearOrder D] → (Nat → D) → Nat → List Nat → List Nat
  sort_perm : ∀ {D : Type} [LinearOrder D] (key : Nat → D) (xs : List Nat),
    (sort key xs).Perm xs
  sort_sorted : ∀ {D : Type} [LinearOrder D] (key : Nat → D) (xs : List Nat),
    (sort key xs).Pairwise (fun a b => key a ≤ key b)
  partialSort_perm : ∀ {D : Type} [LinearOrder D] (key : Nat → D) (m : Nat) (xs : List Nat),
    (partialSort key m xs).Perm xs
  partialSort_sorted : ∀ {D : Type} [LinearOrder D] (key : Nat → D) (m : Nat) (xs : List Nat),
    SortedUpTo key m (partialSort key m xs)

namespace StdSort

variable {D : Type} [LinearOrder D]

/-- What is sorted is all that is compared. -/
structure ComparesOnlySorted (std : StdSort) : Prop where
  sort_congr : ∀ {D : Type} [LinearOrder D] {key key' : Nat → D} {xs : List Nat},
    (∀ x ∈ xs, key x = key' x) → std.sort key xs = std.sort key' xs
  partialSort_congr : ∀ {D : Type} [LinearOrder D] {key key' : Nat → D} {m : Nat} {xs : List Nat},
    (∀ x ∈ xs, key x = key' x) → std.partialSort key m xs = std.partialSort key' m xs

/-- `key a ≤ key b`, for which a list is sorted by `List.insertionSort`. -/
def KeyLE (key : Nat → D) (a b : Nat) : Prop := key a ≤ key b

instance (key : Nat → D) : DecidableRel (KeyLE key) := fun a b =>
  inferInstanceAs (Decidable (key a ≤ key b))

instance (key : Nat → D) : IsTrans Nat (KeyLE key) := ⟨fun _ _ _ hab hbc => le_trans hab hbc⟩

instance (key : Nat → D) : Std.Total (KeyLE key) := ⟨fun a b => le_total (key a) (key b)⟩

theorem sortedUpTo_of_pairwise {key : Nat → D} {xs : List Nat}
    (h : xs.Pairwise (fun a b => key a ≤ key b)) (m : Nat) : SortedUpTo key m xs := by
  rw [← List.take_append_drop m xs, List.pairwise_append] at h
  exact ⟨h.1, h.2.2⟩

/-- Insertion sort, for both functions. -/
def insertion : StdSort where
  sort key xs := xs.insertionSort (KeyLE key)
  partialSort key _ xs := xs.insertionSort (KeyLE key)
  sort_perm _ xs := List.perm_insertionSort _ xs
  sort_sorted _ xs := List.pairwise_insertionSort (KeyLE _) xs
  partialSort_perm _ _ xs := List.perm_insertionSort _ xs
  partialSort_sorted _ m xs :=
    sortedUpTo_of_pairwise (List.pairwise_insertionSort (KeyLE _) xs) m

theorem orderedInsert_congr {key key' : Nat → D} {a : Nat} (ha : key a = key' a) {xs : List Nat}
    (h : ∀ x ∈ xs, key x = key' x) :
    xs.orderedInsert (KeyLE key) a = xs.orderedInsert (KeyLE key') a := by
  induction xs with
  | nil => rfl
  | cons x xs ih =>
    have hx : KeyLE key a x ↔ KeyLE key' a x := by
      rw [KeyLE, KeyLE, ha, h x List.mem_cons_self]
    simp only [List.orderedInsert_cons, hx, ih fun y hy => h y (List.mem_cons_of_mem _ hy)]

theorem insertionSort_congr {key key' : Nat → D} {xs : List Nat} (h : ∀ x ∈ xs, key x = key' x) :
    xs.insertionSort (KeyLE key) = xs.insertionSort (KeyLE key') := by
  induction xs with
  | nil => rfl
  | cons x xs ih =>
    have hxs : ∀ y ∈ xs, key y = key' y := fun y hy => h y (List.mem_cons_of_mem _ hy)
    rw [List.insertionSort_cons, List.insertionSort_cons, ih hxs]
    refine orderedInsert_congr (h x List.mem_cons_self) fun y hy => hxs y ?_
    exact (List.perm_insertionSort _ xs).mem_iff.mp hy

theorem comparesOnlySorted_insertion : insertion.ComparesOnlySorted :=
  ⟨insertionSort_congr, insertionSort_congr⟩

end StdSort

end PDXearch.Lib
