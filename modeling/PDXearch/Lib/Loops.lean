import Mathlib.Data.List.Basic
import Mathlib.Data.List.Range
import Mathlib.Data.List.Nodup
import Mathlib.Logic.Function.Basic
import Mathlib.Data.Set.Function

/-!
# Loops over arrays

An array is a function of the index, a counting loop a `List.foldl` over `List.range`.
`foldl_range_induction` is the invariant rule. Two loops have lemmas of their own: the update of
distinct entries, each from its own old value, and the compaction of a list of positions, which
keeps those that pass a test and is the same in place and from one array to another.
-/

namespace PDXearch.Lib

/-- The invariant rule, indexed by the number of iterations made. -/
theorem foldl_range_induction {σ : Type} {P : Nat → σ → Prop} {f : σ → Nat → σ} {s : σ} {n : Nat}
    (h0 : P 0 s) (hs : ∀ t s, t < n → P t s → P (t + 1) (f s t)) :
    P n ((List.range n).foldl f s) := by
  induction n with
  | zero => exact h0
  | succ n ih =>
    rw [List.range_succ, List.foldl_append]
    exact hs n _ (Nat.lt_succ_self n) (ih fun t s ht => hs t s (Nat.lt_succ_of_lt ht))

/-- The invariant rule for a loop that may fail: it fails where the first of the values does, and
with the same error, else it ends with the invariant for all of them. -/
theorem foldlM_range_induction {σ ε α : Type} {P : Nat → List α → σ → Prop}
    {f : σ → Nat → Except ε σ} {value : Nat → Except ε α} {s : σ} (n : Nat) (h0 : P 0 [] s)
    (hs : ∀ t values s, t < n → P t values s →
      (∃ e, value t = .error e ∧ f s t = .error e) ∨
        ∃ x s', value t = .ok x ∧ f s t = .ok s' ∧ P (t + 1) (values ++ [x]) s') :
    (∃ e, (List.range n).mapM value = .error e ∧ (List.range n).foldlM f s = .error e) ∨
      ∃ values s', (List.range n).mapM value = .ok values ∧ (List.range n).foldlM f s = .ok s' ∧
        P n values s' := by
  induction n with
  | zero => exact Or.inr ⟨[], s, rfl, rfl, h0⟩
  | succ n ih =>
    rw [List.range_succ, List.mapM_append, List.foldlM_append]
    rcases ih fun t values s ht => hs t values s (Nat.lt_succ_of_lt ht) with
      ⟨e, hvalues, hloop⟩ | ⟨values, s', hvalues, hloop, hP⟩
    · exact Or.inl ⟨e, by rw [hvalues]; rfl, by rw [hloop]; rfl⟩
    · rw [hvalues, hloop]
      rcases hs n values s' (Nat.lt_succ_self n) hP with ⟨e, hx, hf⟩ | ⟨x, s'', hx, hf, hP'⟩
      · refine Or.inl ⟨e, ?_, ?_⟩
        · simp only [List.mapM_cons, hx]
          rfl
        · simp only [List.foldlM_cons, hf, bind, Except.bind]
      · refine Or.inr ⟨values ++ [x], s'', ?_, ?_, hP'⟩
        · simp only [List.mapM_cons, hx]
          rfl
        · simp only [List.foldlM_cons, hf, bind, Except.bind]
          rfl

/-- A loop of checks that has ended has passed each of them. -/
theorem forM_eq_ok {ε A : Type} {f : A → Except ε Unit} {l : List A} (h : l.forM f = .ok ()) :
    ∀ a ∈ l, f a = .ok () := by
  induction l with
  | nil => exact fun a ha => absurd ha List.not_mem_nil
  | cons b l ih =>
    have h : (f b >>= fun _ => l.forM f) = .ok () := h
    cases hb : f b with
    | error e =>
      rw [hb] at h
      cases h
    | ok u =>
      rw [hb] at h
      rintro a (_ | ⟨_, ha⟩)
      · exact hb
      · exact ih h a ha

/-- A property that a step keeps if and only if its input is `Ok` holds after all prefixes of the
inputs if and only if all of them are `Ok`. -/
theorem foldl_prefix_iff {σ α : Type} {P : σ → Prop} {Ok : α → Prop} {f : σ → α → σ} {s : σ}
    {xs : List α} (h0 : P s) (hs : ∀ s, P s → ∀ x ∈ xs, (P (f s x) ↔ Ok x)) :
    (∀ pre, pre <+: xs → P (pre.foldl f s)) ↔ ∀ x ∈ xs, Ok x := by
  induction xs generalizing s with
  | nil => simpa using h0
  | cons x xs ih =>
    have hx := hs s h0 x List.mem_cons_self
    have hrest : ∀ s, P s → ∀ y ∈ xs, (P (f s y) ↔ Ok y) := fun s h y hy =>
      hs s h y (List.mem_cons_of_mem _ hy)
    constructor
    · intro h
      have hfirst : P (f s x) := h [x] ((List.prefix_append [x] xs))
      refine List.forall_mem_cons.mpr ⟨hx.mp hfirst, (ih hfirst hrest).mp fun pre hpre => ?_⟩
      exact h (x :: pre) (List.cons_prefix_cons.mpr ⟨rfl, hpre⟩)
    · intro h pre hpre
      obtain ⟨hok, hall⟩ := List.forall_mem_cons.mp h
      cases pre with
      | nil => exact h0
      | cons y pre =>
        obtain ⟨rfl, hrec⟩ := List.cons_prefix_cons.mp hpre
        exact (ih (hx.mpr hok) hrest).mpr hall pre hrec

/-- Updating one entry again and again is one update. -/
theorem foldl_update_same {α β : Type} (f : α → β → α) (i : Nat) (ks : List β) (d : Nat → α) :
    ks.foldl (fun d k => Function.update d i (f (d i) k)) d =
      Function.update d i (ks.foldl f (d i)) := by
  induction ks generalizing d with
  | nil => exact (Function.update_eq_self i d).symm
  | cons k ks ih =>
    rw [List.foldl_cons, ih, Function.update_self, Function.update_idem, List.foldl_cons]

/-- Updating distinct entries one after the other, each from its own value. -/
theorem foldl_update_nodup {α : Type} {xs : List Nat} (hnd : xs.Nodup) (f : Nat → α → α)
    (d : Nat → α) (j : Nat) :
    xs.foldl (fun d x => Function.update d x (f x (d x))) d j =
      if j ∈ xs then f j (d j) else d j := by
  induction xs generalizing d with
  | nil => simp
  | cons x xs ih =>
    obtain ⟨hx, hnd⟩ := List.nodup_cons.mp hnd
    rw [List.foldl_cons, ih hnd]
    by_cases hj : j = x
    · subst hj
      simp [hx]
    · simp [hj]

theorem foldl_update_range {α : Type} (n : Nat) (f : Nat → α → α) (d : Nat → α) (j : Nat) :
    (List.range n).foldl (fun d x => Function.update d x (f x (d x))) d j =
      if j < n then f j (d j) else d j := by
  simp [foldl_update_nodup List.nodup_range]

/-! ## Arrays that agree -/

/-- Two loops that keep two arrays in agreement on a set. -/
theorem eqOn_foldl {α ι : Type} {s : Set Nat} {xs : List ι} {f f' : (Nat → α) → ι → Nat → α}
    {d d' : Nat → α} (h : Set.EqOn d d' s)
    (hs : ∀ x ∈ xs, ∀ d d', Set.EqOn d d' s → Set.EqOn (f d x) (f' d' x) s) :
    Set.EqOn (xs.foldl f d) (xs.foldl f' d') s := by
  induction xs generalizing d d' with
  | nil => exact h
  | cons x xs ih =>
    exact ih (hs x List.mem_cons_self d d' h) fun y hy => hs y (List.mem_cons_of_mem _ hy)

/-- Writing an entry to both. -/
theorem eqOn_update {α : Type} {s : Set Nat} {d d' : Nat → α} (h : Set.EqOn d d' s) {x : Nat}
    {y y' : α} (hy : x ∈ s → y = y') :
    Set.EqOn (Function.update d x y) (Function.update d' x y') s := by
  intro i hi
  by_cases hix : i = x
  · subst hix
    simp only [Function.update_self, hy hi]
  · simp only [Function.update_of_ne hix, h hi]

/-- `std::iota` and the loops like it: the first `n` entries are written, one after the other. -/
def fill {α : Type} (n : Nat) (f : Nat → α) (d : Nat → α) : Nat → α :=
  (List.range n).foldl (fun d i => Function.update d i (f i)) d

theorem fill_apply {α : Type} (n : Nat) (f d : Nat → α) (i : Nat) :
    fill n f d i = if i < n then f i else d i :=
  foldl_update_range n (fun i _ => f i) d i

/-- What is written is all that is read of the first `n` entries. -/
theorem map_fill {α : Type} (n : Nat) (f d : Nat → α) :
    (List.range n).map (fill n f d) = (List.range n).map f := by
  refine List.map_congr_left fun i hi => ?_
  rw [fill_apply, if_pos (List.mem_range.mp hi)]

/-- Reading back a list that was written to an array. -/
theorem map_getD_range {α : Type} (xs : List α) (d : Nat → α) :
    (List.range xs.length).map (fun i => xs.getD i (d i)) = xs := by
  apply List.ext_getElem
  · simp
  · intro i hi hi'
    simp [List.getD_eq_getElem?_getD, hi']

/-! ## Compaction -/

/-- After `t` entries of `orig` have been tested: the array `pos` starts with the `m` of them that
are kept, and agrees with `src` from `t` on. -/
structure Compacted (orig src : Nat → Nat) (keep : Nat → Bool) (t : Nat)
    (s : (Nat → Nat) × Nat) : Prop where
  kept : (List.range s.2).map s.1 = ((List.range t).map orig).filter keep
  le : s.2 ≤ t
  frame : ∀ j, t ≤ j → s.1 j = src j

namespace Compacted

variable {orig src : Nat → Nat} {keep : Nat → Bool} {t : Nat}

theorem zero (orig src : Nat → Nat) (keep : Nat → Bool) : Compacted orig src keep 0 (src, 0) :=
  ⟨rfl, le_rfl, fun _ _ => rfl⟩

/-- The next entry is written behind the kept ones in any case; the count decides. -/
theorem succ {s : (Nat → Nat) × Nat} (h : Compacted orig src keep t s) :
    Compacted orig src keep (t + 1)
      (Function.update s.1 s.2 (orig t), s.2 + if keep (orig t) then 1 else 0) := by
  have hbelow : (List.range s.2).map (Function.update s.1 s.2 (orig t)) =
      (List.range s.2).map s.1 :=
    List.map_congr_left fun i hi => Function.update_of_ne (List.mem_range.mp hi).ne _ _
  have hle := h.le
  refine ⟨?_, ?_, fun j hj => ?_⟩
  · rw [List.range_succ, List.map_append, List.filter_append, ← h.kept]
    cases hk : keep (orig t) with
    | true => simp [List.range_succ, hbelow, hk]
    | false => simp [hbelow, hk]
  · split <;> omega
  · exact (Function.update_of_ne (by omega) _ _).trans (h.frame j (by omega))

end Compacted

end PDXearch.Lib
