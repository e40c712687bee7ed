import Mathlib.Data.Multiset.AddSub
import Mathlib.Data.List.Sort
import Mathlib.Order.WithBot

/-!
# Priority queues

A max-queue in the sense of a standard library: `top?` is an entry of greatest key, `pop`
removes the entry that `top?` shows, and nothing is promised about which of several greatest
entries that is. The contents are a multiset; every law is stated on it, so a result about
`PriorityQueue` holds whatever the queue does with ties.

`SortedQueue` is an executable instance: the entries as a list of non-increasing keys.
-/

namespace PDXearch.Lib

/-- A queue `H` of entries `C`, greatest `key` first. -/
class PriorityQueue (H : Type) {C D : outParam Type} [LinearOrder D] (key : outParam (C → D)) where
  empty : H
  size : H → Nat
  top? : H → Option C
  push : C → H → H
  pop : H → H
  elems : H → Multiset C
  elems_empty : elems empty = 0
  size_eq : ∀ h, size h = (elems h).card
  elems_push : ∀ c h, elems (push c h) = c ::ₘ elems h
  top?_none : ∀ h, top? h = none ↔ elems h = 0
  le_top : ∀ h c, top? h = some c → ∀ x ∈ elems h, key x ≤ key c
  elems_pop : ∀ h c, top? h = some c → c ::ₘ elems (pop h) = elems h

namespace PriorityQueue

attribute [simp] elems_empty elems_push

variable {H C D : Type} [LinearOrder D] {key : C → D} [PriorityQueue H key]

theorem mem_of_top? {h : H} {c : C} (ht : top? h = some c) : c ∈ elems h := by
  rw [← elems_pop h c ht]
  exact Multiset.mem_cons_self _ _

theorem exists_top? {h : H} (hne : elems h ≠ 0) : ∃ c, top? h = some c := by
  cases ht : top? h with
  | none => exact absurd ((top?_none h).mp ht) hne
  | some c => exact ⟨c, rfl⟩

theorem size_pop {h : H} {c : C} (ht : top? h = some c) : size (pop h) + 1 = size h := by
  rw [size_eq, size_eq, ← elems_pop h c ht, Multiset.card_cons]

theorem elems_foldl_push {ι : Type} (f : ι → C) (xs : List ι) (h : H) :
    elems (xs.foldl (fun h x => push (f x) h) h) = (xs.map f : List C) + elems h := by
  induction xs generalizing h with
  | nil => simp
  | cons x xs ih =>
    rw [List.foldl_cons, ih, elems_push, List.map_cons, ← Multiset.cons_coe, Multiset.add_cons,
      Multiset.cons_add]

/-- The greatest key in the queue; `⊤` when it is empty. -/
def topKey [OrderTop D] (h : H) : D := (top? h).elim ⊤ key

section Top

variable [OrderTop D]

theorem topKey_of_top? {h : H} {c : C} (ht : top? h = some c) : topKey h = key c := by
  simp [topKey, ht]

theorem le_topKey {h : H} {x : C} (hx : x ∈ elems h) : key x ≤ topKey h := by
  obtain ⟨c, hc⟩ := exists_top? (h := h) (fun h0 => by simp [h0] at hx)
  rw [topKey_of_top? hc]
  exact le_top h c hc x hx

/-- The key shown by a non-empty queue is attained. -/
theorem exists_topKey {h : H} (hne : elems h ≠ 0) : ∃ c ∈ elems h, key c = topKey h := by
  obtain ⟨c, hc⟩ := exists_top? hne
  exact ⟨c, mem_of_top? hc, (topKey_of_top? hc).symm⟩

theorem topKey_le {h : H} (hne : elems h ≠ 0) {d : D} (hd : ∀ x ∈ elems h, key x ≤ d) :
    topKey h ≤ d := by
  obtain ⟨c, hc, he⟩ := exists_topKey hne
  exact he ▸ hd c hc

end Top

/-- The `n` greatest entries, popped one by one and laid out in ascending order. -/
def drain : Nat → H → List C
  | 0, _ => []
  | n + 1, h =>
    match top? h with
    | none => []
    | some c => drain n (pop h) ++ [c]

theorem drain_all {n : Nat} {h : H} (hn : n = size h) :
    (drain n h : Multiset C) = elems h ∧ (drain n h).Pairwise (fun a b => key a ≤ key b) := by
  induction n generalizing h with
  | zero =>
    rw [size_eq] at hn
    exact ⟨(Multiset.card_eq_zero.mp hn.symm).symm, List.Pairwise.nil⟩
  | succ n ih =>
    have hne : elems h ≠ 0 := fun h0 => by simp [size_eq, h0] at hn
    obtain ⟨c, hc⟩ := exists_top? hne
    obtain ⟨helems, hsorted⟩ := ih (h := pop h) (by have := size_pop hc; omega)
    simp only [drain, hc]
    refine ⟨?_, List.pairwise_append.mpr ⟨hsorted, List.pairwise_singleton _ _, ?_⟩⟩
    · rw [← elems_pop h c hc, ← helems, Multiset.cons_coe, Multiset.coe_eq_coe]
      exact List.perm_append_singleton c _
    · intro a ha b hb
      obtain rfl := List.mem_singleton.mp hb
      refine le_top h b hc a ?_
      rw [← elems_pop h b hc, ← helems]
      exact Multiset.mem_cons_of_mem ha

end PriorityQueue

section Sorted

variable {C D : Type} [LinearOrder D] {key : C → D}

/-- "Not after": the entry of the greater key stands first. -/
def NotAfter (key : C → D) (a b : C) : Prop := key b ≤ key a

instance (key : C → D) : DecidableRel (NotAfter key) := fun a b =>
  inferInstanceAs (Decidable (key b ≤ key a))

instance (key : C → D) : IsTrans C (NotAfter key) := ⟨fun _ _ _ hab hbc => le_trans hbc hab⟩

instance (key : C → D) : Std.Total (NotAfter key) := ⟨fun a b => le_total (key b) (key a)⟩

/-- A queue kept as a list whose keys do not increase. -/
structure SortedQueue (key : C → D) where
  toList : List C
  sorted : toList.Pairwise (NotAfter key)

instance : PriorityQueue (SortedQueue key) key where
  empty := ⟨[], List.Pairwise.nil⟩
  size h := h.toList.length
  top? h := h.toList.head?
  push c h := ⟨h.toList.orderedInsert (NotAfter key) c, h.sorted.orderedInsert c _⟩
  pop h := ⟨h.toList.tail, h.sorted.tail⟩
  elems h := (h.toList : Multiset C)
  elems_empty := rfl
  size_eq _ := rfl
  elems_push c h := Multiset.coe_eq_coe.mpr (List.perm_orderedInsert _ c h.toList)
  top?_none h := by simp
  le_top h c ht x hx := by
    obtain ⟨xs, hs⟩ := h
    cases xs with
    | nil => simp at ht
    | cons y ys =>
      obtain rfl : y = c := by simpa using ht
      rcases List.mem_cons.mp (Multiset.mem_coe.mp hx) with rfl | hy
      · exact le_rfl
      · exact (List.pairwise_cons.mp hs).1 x hy
  elems_pop h c ht := by
    obtain ⟨xs, hs⟩ := h
    cases xs with
    | nil => simp at ht
    | cons y ys =>
      obtain rfl : y = c := by simpa using ht
      rfl

end Sorted

end PDXearch.Lib
