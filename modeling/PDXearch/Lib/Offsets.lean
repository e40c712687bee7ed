import Mathlib.Algebra.BigOperators.Intervals
import Mathlib.Algebra.Order.BigOperators.Group.Finset
import Mathlib.Data.Set.Function

/-!
# Slots of concatenated blocks

Blocks of the given sizes stand one behind the other; block `c` starts at the sum of the sizes
before it. The slots `(c, p)` with `p` below the size of block `c` correspond one to one to the
positions in the concatenation. The blocks may be empty.
-/

namespace PDXearch.Lib

/-- Where block `c` starts. -/
def offset (sizes : Nat → Nat) (c : Nat) : Nat := ∑ i ∈ Finset.range c, sizes i

/-- The slots of the first `n` blocks. -/
def slots (sizes : Nat → Nat) (n : Nat) : Set (Nat × Nat) := {s | s.1 < n ∧ s.2 < sizes s.1}

variable {sizes : Nat → Nat}

theorem offset_succ (sizes : Nat → Nat) (c : Nat) :
    offset sizes (c + 1) = offset sizes c + sizes c :=
  Finset.sum_range_succ _ _

theorem offset_mono (sizes : Nat → Nat) {c c' : Nat} (h : c ≤ c') : offset sizes c ≤ offset sizes c' :=
  Finset.sum_le_sum_of_subset (Finset.range_mono h)

theorem offset_add_lt {c p n : Nat} (hc : c < n) (hp : p < sizes c) :
    offset sizes c + p < offset sizes n := by
  have hnext := offset_mono sizes (Nat.succ_le_of_lt hc)
  rw [Nat.succ_eq_add_one, offset_succ] at hnext
  omega

theorem offset_add_inj {c p c' p' : Nat} (hp : p < sizes c) (hp' : p' < sizes c')
    (h : offset sizes c + p = offset sizes c' + p') : c = c' ∧ p = p' := by
  rcases lt_trichotomy c c' with hlt | rfl | hlt
  · have := offset_add_lt hlt hp
    omega
  · exact ⟨rfl, by omega⟩
  · have := offset_add_lt hlt hp'
    omega

theorem exists_slot {n x : Nat} (hx : x < offset sizes n) :
    ∃ c p, c < n ∧ p < sizes c ∧ offset sizes c + p = x := by
  induction n with
  | zero => exact absurd hx (Nat.not_lt_zero x)
  | succ n ih =>
    by_cases hlt : x < offset sizes n
    · obtain ⟨c, p, hc, hp, heq⟩ := ih hlt
      exact ⟨c, p, Nat.lt_succ_of_lt hc, hp, heq⟩
    · rw [offset_succ] at hx
      exact ⟨n, x - offset sizes n, Nat.lt_succ_self n, by omega, by omega⟩

/-- Slots and positions correspond one to one. -/
theorem bijOn_slots (sizes : Nat → Nat) (n : Nat) :
    Set.BijOn (fun s : Nat × Nat => offset sizes s.1 + s.2) (slots sizes n)
      (Set.Iio (offset sizes n)) := by
  refine ⟨fun s hs => offset_add_lt hs.1 hs.2, ?_, fun x hx => ?_⟩
  · intro s hs s' hs' heq
    obtain ⟨hc, hp⟩ := offset_add_inj hs.2 hs'.2 heq
    exact Prod.ext hc hp
  · obtain ⟨c, p, hc, hp, heq⟩ := exists_slot hx
    exact ⟨(c, p), ⟨hc, hp⟩, heq⟩

/-- If different slots have different values, then no value occurs twice. -/
theorem nodup_flatMap_map {α β γ : Type} {cs : List α} {ps : α → List β} {f : α → β → γ}
    (hcs : cs.Nodup) (hps : ∀ c ∈ cs, (ps c).Nodup)
    (hf : ∀ c ∈ cs, ∀ p ∈ ps c, ∀ c' ∈ cs, ∀ p' ∈ ps c', f c p = f c' p' → c = c' ∧ p = p') :
    (cs.flatMap fun c => (ps c).map (f c)).Nodup := by
  rw [List.nodup_flatMap]
  constructor
  · intro c hc
    refine (List.nodup_map_iff_inj_on (hps c hc)).mpr fun p hp p' hp' heq => ?_
    exact (hf c hc p hp c hc p' hp' heq).2
  · refine List.Pairwise.imp_of_mem (fun {c c'} hc hc' hne x hx hx' => ?_) hcs
    obtain ⟨p, hp, rfl⟩ := List.mem_map.mp hx
    obtain ⟨p', hp', heq⟩ := List.mem_map.mp hx'
    exact hne (hf c hc p hp c' hc' p' hp' heq.symm).1

/-- The blocks of a function's fibres: every entry of the list is in the block of its value. -/
theorem offset_fibres {f : Nat → Nat} {m : Nat} (L : List Nat) (hf : ∀ i ∈ L, f i < m) :
    offset (fun c => (L.filter fun i => f i = c).length) m = L.length := by
  induction L with
  | nil => simp [offset]
  | cons x L ih =>
    have hx : f x ∈ Finset.range m := Finset.mem_range.mpr (hf x List.mem_cons_self)
    have hstep : ∀ c, ((x :: L).filter fun i => f i = c).length =
        (L.filter fun i => f i = c).length + if f x = c then 1 else 0 := fun c => by
      by_cases hc : f x = c
      · simp [hc]
      · simp [hc]
    rw [offset, Finset.sum_congr rfl fun c _ => hstep c, Finset.sum_add_distrib,
      Finset.sum_ite_eq, if_pos hx, List.length_cons]
    exact congrArg (· + 1) (ih fun i hi => hf i (List.mem_cons_of_mem _ hi))

end PDXearch.Lib
