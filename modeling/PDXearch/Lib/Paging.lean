import Mathlib.Algebra.BigOperators.Group.List.Basic

/-!
# A list handed out in pages

A producer keeps a list and a position in it; every request is answered by the next `capacity`
elements, or by what is left. `Paged` describes the pages of the requests so far. A request that
is answered by the empty page finds the whole list handed out.
-/

namespace PDXearch.Lib

variable {α : Type} {capacity position : Nat} {rows : List α} {pages : List (List α)}

/-- The elements from `position` on, at most `capacity` of them. -/
def page (capacity : Nat) (rows : List α) (position : Nat) : List α :=
  (rows.drop position).take capacity

@[simp] theorem length_page :
    (page capacity rows position).length = min capacity (rows.length - position) := by
  simp [page]

theorem page_eq_nil_iff (hcapacity : 0 < capacity) :
    page capacity rows position = [] ↔ rows.length ≤ position := by
  rw [← List.length_eq_zero_iff, length_page]
  omega

theorem take_append_page :
    rows.take position ++ page capacity rows position =
      rows.take (position + min capacity (rows.length - position)) := by
  rw [page, List.take_add]
  congr 1
  rcases Nat.le_total capacity (rows.length - position) with h | h
  · rw [Nat.min_eq_left h]
  · rw [Nat.min_eq_right h, List.take_of_length_le (by simpa using h),
      List.take_of_length_le (by simp)]

/-- The pages handed out up to `position`: none is empty, and as long as something is left, all are
full. -/
structure Paged (capacity : Nat) (rows : List α) (pages : List (List α)) (position : Nat) :
    Prop where
  flatten : pages.flatten = rows.take position
  position_le : position ≤ rows.length
  nonempty : ∀ p ∈ pages, p ≠ []
  length_le : ∀ p ∈ pages, p.length ≤ capacity
  full : position < rows.length → ∀ p ∈ pages, p.length = capacity
  dropLast_full : ∀ p ∈ pages.dropLast, p.length = capacity

namespace Paged

theorem nil : Paged capacity rows [] 0 where
  flatten := rfl
  position_le := Nat.zero_le _
  nonempty _ h := by cases h
  length_le _ h := by cases h
  full _ _ h := by cases h
  dropLast_full _ h := by cases h

theorem length_flatten (h : Paged capacity rows pages position) :
    pages.flatten.length = position := by
  rw [h.flatten, List.length_take, Nat.min_eq_left h.position_le]

/-- A request that is answered by a page. -/
theorem snoc (h : Paged capacity rows pages position)
    (hpage : page capacity rows position ≠ []) :
    Paged capacity rows (pages ++ [page capacity rows position])
      (position + (page capacity rows position).length) := by
  have hlt : position < rows.length := by
    by_contra hle
    exact hpage (by rw [page, List.drop_eq_nil_of_le (by omega), List.take_nil])
  refine ⟨?_, ?_, ?_, ?_, ?_, ?_⟩
  · rw [List.flatten_append, h.flatten, List.flatten_singleton, take_append_page, length_page]
  · rw [length_page]
    omega
  · intro p hp
    rcases List.mem_append.mp hp with hp | hp
    · exact h.nonempty p hp
    · rwa [List.mem_singleton.mp hp]
  · intro p hp
    rcases List.mem_append.mp hp with hp | hp
    · exact h.length_le p hp
    · rw [List.mem_singleton.mp hp, length_page]
      omega
  · intro hleft p hp
    rcases List.mem_append.mp hp with hp | hp
    · exact h.full hlt p hp
    · rw [length_page] at hleft
      rw [List.mem_singleton.mp hp, length_page]
      omega
  · rw [List.dropLast_concat]
    exact h.full hlt

/-- A request that is answered by nothing. -/
theorem complete (h : Paged capacity rows pages position) (hcapacity : 0 < capacity)
    (hpage : page capacity rows position = []) :
    pages.flatten = rows ∧ position = rows.length := by
  have hposition := Nat.le_antisymm h.position_le ((page_eq_nil_iff hcapacity).mp hpage)
  rw [h.flatten, hposition, List.take_length]
  exact ⟨rfl, rfl⟩

theorem length_flatten_eq {n : Nat} (hfull : ∀ p ∈ pages, p.length = n) :
    pages.flatten.length = pages.length * n := by
  rw [List.length_flatten, List.map_congr_left hfull, List.map_const', List.sum_replicate]
  rfl

/-- The number of pages is the position over the capacity, rounded up. -/
theorem length_pages (h : Paged capacity rows pages position) (hcapacity : 0 < capacity) :
    pages.length = (position + capacity - 1) / capacity := by
  have hposition := h.length_flatten
  rcases List.eq_nil_or_concat pages with rfl | ⟨front, last, rfl⟩
  · subst hposition
    refine (Nat.div_eq_of_lt ?_).symm
    rw [List.flatten_nil, List.length_nil]
    omega
  · have hfront := h.dropLast_full
    have hpos := List.length_pos_iff.mpr (h.nonempty last (by simp))
    have hle := h.length_le last (by simp)
    rw [List.concat_eq_append, List.dropLast_concat] at hfront
    rw [List.concat_eq_append, List.flatten_append, List.length_append,
      length_flatten_eq hfront, List.flatten_singleton] at hposition
    rw [List.concat_eq_append, List.length_append, List.length_singleton]
    symm
    rw [Nat.div_eq_iff hcapacity, Nat.add_mul, Nat.one_mul]
    omega

end Paged

end PDXearch.Lib
