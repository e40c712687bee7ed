import Mathlib.Data.List.Nodup
import Mathlib.Order.Lattice

/-!
# Staging

Chunks of items arrive one after the other. The items of a group are staged until a chunk of a
later group arrives, and are then handed on together; the last ones are handed on at the end. If
every chunk is of one group and the groups arrive in ascending order, the groups that are handed on
are those of the grouped items (`stage_isSortedGrouping`).
-/

namespace PDXearch.Lib

variable {A κ : Type} [LinearOrder κ] {key : A → κ}

/-- What is handed on from a stage that holds `staged` for the group `current`. -/
def stage (key : A → κ) : κ → List A → List (List A) → List (κ × List A)
  | current, staged, [] => if staged.isEmpty then [] else [(current, staged)]
  | current, staged, [] :: chunks => stage key current staged chunks
  | current, staged, (a :: chunk) :: chunks =>
    if current < key a ∧ ¬ staged.isEmpty then
      (current, staged) :: stage key (key a) (a :: chunk) chunks
    else stage key (key a) (staged ++ a :: chunk) chunks

/-- Chunks of one group each, the groups in ascending order. -/
structure ChunksInOrder (key : A → κ) (chunks : List (List A)) : Prop where
  sameKey : ∀ chunk ∈ chunks, ∀ a ∈ chunk, ∀ b ∈ chunk, key a = key b
  ascending : chunks.flatten.Pairwise fun a b => key a ≤ key b

/-- `groups` are the groups that occur in `items`, each once and with exactly its items. -/
structure IsGrouping (key : A → κ) (items : List A) (groups : List (κ × List A)) : Prop where
  nodup : (groups.map Prod.fst).Nodup
  occurs : ∀ k, k ∈ groups.map Prod.fst ↔ ∃ a ∈ items, key a = k
  items_eq : ∀ g ∈ groups, g.2 = items.filter fun a => key a = g.1

/-- The groups come in order. -/
structure IsSortedGrouping (key : A → κ) (items : List A) (groups : List (κ × List A)) : Prop
    extends IsGrouping key items groups where
  ascending : groups.Pairwise fun g g' => g.1 < g'.1

/-! ## What is handed on -/

/-- No item gets lost. -/
theorem flatMap_stage (current : κ) (staged : List A) (chunks : List (List A)) :
    (stage key current staged chunks).flatMap Prod.snd = staged ++ chunks.flatten := by
  induction chunks generalizing current staged with
  | nil =>
    unfold stage
    split <;> simp_all
  | cons chunk chunks ih =>
    cases chunk with
    | nil => simp [stage, ih]
    | cons a chunk =>
      unfold stage
      split
      · simp [ih]
      · simp [ih]

/-- Empty groups are not handed on. -/
theorem ne_nil_of_mem_stage {current : κ} {staged : List A} {chunks : List (List A)}
    {g : κ × List A} (hg : g ∈ stage key current staged chunks) : g.2 ≠ [] := by
  induction chunks generalizing current staged with
  | nil =>
    unfold stage at hg
    split at hg
    · cases hg
    · rename_i hempty
      obtain rfl := List.mem_singleton.mp hg
      simpa using hempty
  | cons chunk chunks ih =>
    cases chunk with
    | nil => exact ih hg
    | cons a chunk =>
      unfold stage at hg
      split at hg
      · rename_i hnew
        cases hg with
        | head => simpa using hnew.2
        | tail _ hg => exact ih hg
      · exact ih hg

theorem ChunksInOrder.tail {chunk : List A} {chunks : List (List A)}
    (h : ChunksInOrder key (chunk :: chunks)) : ChunksInOrder key chunks :=
  ⟨fun chunk' hchunk' => h.sameKey chunk' (List.mem_cons_of_mem _ hchunk'),
    (List.pairwise_append.mp (List.flatten_cons ▸ h.ascending)).2.1⟩

theorem ChunksInOrder.key_head_le {a : A} {chunk : List A} {chunks : List (List A)}
    (h : ChunksInOrder key ((a :: chunk) :: chunks)) : ∀ b ∈ chunks.flatten, key a ≤ key b := by
  intro b hb
  have hascending := h.ascending
  rw [List.flatten_cons, List.pairwise_append] at hascending
  exact hascending.2.2 a List.mem_cons_self b hb

/-- The items of a group that is handed on belong to it, and the groups come in strictly ascending
order, the staged one first. -/
theorem stage_inOrder {current : κ} {staged : List A} {chunks : List (List A)}
    (h : ChunksInOrder key chunks) (hstaged : ∀ a ∈ staged, key a = current)
    (hcurrent : ∀ a ∈ chunks.flatten, current ≤ key a) :
    (∀ g ∈ stage key current staged chunks, current ≤ g.1 ∧ ∀ a ∈ g.2, key a = g.1) ∧
      (stage key current staged chunks).Pairwise fun g g' => g.1 < g'.1 := by
  induction chunks generalizing current staged with
  | nil =>
    unfold stage
    split
    · exact ⟨by simp, .nil⟩
    · simpa using hstaged
  | cons chunk chunks ih =>
    cases chunk with
    | nil => exact ih h.tail hstaged hcurrent
    | cons a chunk =>
      have hsame : ∀ b ∈ a :: chunk, key b = key a := fun b hb =>
        h.sameKey _ List.mem_cons_self b hb a List.mem_cons_self
      have hle : current ≤ key a := hcurrent a (by simp)
      unfold stage
      split
      · rename_i hnew
        obtain ⟨hgroups, hpairwise⟩ := ih h.tail hsame h.key_head_le
        refine ⟨?_, List.pairwise_cons.mpr ⟨fun g hg => hnew.1.trans_le (hgroups g hg).1, hpairwise⟩⟩
        intro g hg
        cases hg with
        | head => exact ⟨le_rfl, hstaged⟩
        | tail _ hg => exact ⟨hle.trans (hgroups g hg).1, (hgroups g hg).2⟩
      · rename_i hnew
        have hall : ∀ b ∈ staged ++ a :: chunk, key b = key a := by
          intro b hb
          rcases List.mem_append.mp hb with hb | hb
          · -- something is staged, hence its group goes on
            have hge : key a ≤ current := by
              by_contra hlt
              exact hnew ⟨not_le.mp hlt, by simpa using List.ne_nil_of_mem hb⟩
            exact (hstaged b hb).trans (le_antisymm hle hge)
          · exact hsame b hb
        obtain ⟨hgroups, hpairwise⟩ := ih h.tail hall h.key_head_le
        exact ⟨fun g hg => ⟨hle.trans (hgroups g hg).1, (hgroups g hg).2⟩, hpairwise⟩

/-! ## Groupings -/

/-- Of the items of several places with one key, all are in one place. -/
theorem filter_flatMap_eq {ι : Type} {places : List ι} (hplaces : places.Nodup) {items : ι → List A}
    {k : κ} {i : ι} (hi : i ∈ places) (hone : ∀ j ∈ places, ∀ a ∈ items j, key a = k → j = i) :
    ((places.flatMap items).filter fun a => key a = k) = (items i).filter fun a => key a = k := by
  obtain ⟨pre, post, rfl⟩ := List.append_of_mem hi
  have hnone : ∀ l : List ι, l ⊆ pre ++ i :: post → i ∉ l →
      ((l.flatMap items).filter fun a => key a = k) = [] := by
    intro l hl hnot
    rw [List.filter_eq_nil_iff]
    intro a ha hkey
    obtain ⟨j, hj, ha⟩ := List.mem_flatMap.mp ha
    exact hnot (hone j (hl hj) a ha (of_decide_eq_true hkey) ▸ hj)
  have hnot := List.nodup_middle.mp hplaces
  rw [List.nodup_cons, List.mem_append, not_or] at hnot
  rw [List.flatMap_append, List.flatMap_cons, List.filter_append, List.filter_append,
    hnone pre (List.subset_append_left _ _) hnot.1.1,
    hnone post (List.subset_append_of_subset_right _ (List.subset_cons_self _ _)) hnot.1.2,
    List.nil_append, List.append_nil]

namespace IsGrouping

variable {items items' : List A} {groups : List (κ × List A)}

theorem of_flatMap (hnodup : (groups.map Prod.fst).Nodup)
    (hkey : ∀ g ∈ groups, ∀ a ∈ g.2, key a = g.1) (hne : ∀ g ∈ groups, g.2 ≠ [])
    (hitems : groups.flatMap Prod.snd = items) : IsGrouping key items groups := by
  subst hitems
  refine ⟨hnodup, fun k => ?_, fun g hg => ?_⟩
  · constructor
    · intro hk
      obtain ⟨g, hg, rfl⟩ := List.mem_map.mp hk
      obtain ⟨a, ha⟩ := List.exists_mem_of_ne_nil _ (hne g hg)
      exact ⟨a, List.mem_flatMap.mpr ⟨g, hg, ha⟩, hkey g hg a ha⟩
    · rintro ⟨a, ha, rfl⟩
      obtain ⟨g, hg, ha⟩ := List.mem_flatMap.mp ha
      exact List.mem_map.mpr ⟨g, hg, (hkey g hg a ha).symm⟩
  · have hone : ∀ g' ∈ groups, ∀ a ∈ g'.2, key a = g.1 → g' = g := by
      intro g' hg' a ha heq
      exact List.inj_on_of_nodup_map hnodup hg' hg ((hkey g' hg' a ha).symm.trans heq)
    rw [filter_flatMap_eq (List.Nodup.of_map _ hnodup) hg hone, eq_comm, List.filter_eq_self]
    intro a ha
    exact decide_eq_true (hkey g hg a ha)

/-- Grouping by what a function keeps of the items. -/
theorem map {B : Type} {key' : B → κ} (f : A → B) (hkey : ∀ a, key' (f a) = key a)
    (h : IsGrouping key items groups) :
    IsGrouping key' (items.map f) (groups.map fun g => (g.1, g.2.map f)) := by
  refine ⟨?_, fun k => ?_, fun g hg => ?_⟩
  · rw [List.map_map]
    exact h.nodup
  · rw [List.map_map]
    refine (h.occurs k).trans ?_
    simp [hkey]
  · obtain ⟨g, hmem, rfl⟩ := List.mem_map.mp hg
    simp only [h.items_eq g hmem, List.filter_map, Function.comp_def, hkey]

/-- The groups in another order. -/
theorem perm {groups' : List (κ × List A)} (h : IsGrouping key items groups)
    (hperm : groups'.Perm groups) : IsGrouping key items groups' where
  nodup := (hperm.map Prod.fst).nodup_iff.mpr h.nodup
  occurs k := (hperm.map Prod.fst).mem_iff.trans (h.occurs k)
  items_eq g hg := h.items_eq g (hperm.mem_iff.mp hg)

/-- Two lists with the same groups have the same items of each group. -/
theorem filter_eq (h : IsGrouping key items groups) (h' : IsGrouping key items' groups) (k : κ) :
    (items.filter fun a => key a = k) = items'.filter fun a => key a = k := by
  by_cases hk : k ∈ groups.map Prod.fst
  · obtain ⟨g, hg, rfl⟩ := List.mem_map.mp hk
    rw [← h.items_eq g hg, ← h'.items_eq g hg]
  · have hnone : ∀ {l : List A}, (k ∈ groups.map Prod.fst ↔ ∃ a ∈ l, key a = k) →
        (l.filter fun a => key a = k) = [] := by
      intro l hl
      rw [List.filter_eq_nil_iff]
      intro a ha hkey
      exact hk (hl.mpr ⟨a, ha, of_decide_eq_true hkey⟩)
    rw [hnone (h.occurs k), hnone (h'.occurs k)]

/-- The groups of several places, if no group has items in two. -/
theorem flatMap {ι : Type} {places : List ι} (hplaces : places.Nodup) {items : ι → List A}
    {groups : ι → List (κ × List A)} (h : ∀ i, IsGrouping key (items i) (groups i))
    (hone : ∀ i i', ∀ a ∈ items i, ∀ a' ∈ items i', key a = key a' → i = i') :
    IsGrouping key (places.flatMap items) (places.flatMap groups) := by
  refine ⟨?_, fun k => ?_, fun g hg => ?_⟩
  · rw [List.map_flatMap, List.nodup_flatMap]
    refine ⟨fun i _ => (h i).nodup, hplaces.imp fun {i i'} hne k hk hk' => ?_⟩
    obtain ⟨a, ha, rfl⟩ := ((h i).occurs k).mp hk
    obtain ⟨a', ha', heq⟩ := ((h i').occurs _).mp hk'
    exact hne (hone i i' a ha a' ha' heq.symm)
  · rw [List.map_flatMap, List.mem_flatMap]
    constructor
    · rintro ⟨i, hi, hk⟩
      obtain ⟨a, ha, hkey⟩ := ((h i).occurs k).mp hk
      exact ⟨a, List.mem_flatMap.mpr ⟨i, hi, ha⟩, hkey⟩
    · rintro ⟨a, ha, hkey⟩
      obtain ⟨i, hi, ha⟩ := List.mem_flatMap.mp ha
      exact ⟨i, hi, ((h i).occurs k).mpr ⟨a, ha, hkey⟩⟩
  · obtain ⟨i, hi, hg⟩ := List.mem_flatMap.mp hg
    obtain ⟨a', ha', hkey'⟩ := ((h i).occurs g.1).mp (List.mem_map_of_mem hg)
    rw [(h i).items_eq g hg, filter_flatMap_eq hplaces hi]
    intro j _ a ha hkey
    exact hone j i a ha a' ha' (hkey.trans hkey'.symm)

end IsGrouping

theorem IsSortedGrouping.map {B : Type} {key' : B → κ} (f : A → B) (hkey : ∀ a, key' (f a) = key a)
    {items : List A} {groups : List (κ × List A)} (h : IsSortedGrouping key items groups) :
    IsSortedGrouping key' (items.map f) (groups.map fun g => (g.1, g.2.map f)) :=
  ⟨h.toIsGrouping.map f hkey, List.pairwise_map.mpr h.ascending⟩

/-- Staging groups the items, whatever group it starts with. -/
theorem stage_isSortedGrouping {current : κ} {chunks : List (List A)}
    (h : ChunksInOrder key chunks) (hcurrent : ∀ a ∈ chunks.flatten, current ≤ key a) :
    IsSortedGrouping key chunks.flatten (stage key current [] chunks) := by
  have hempty : ∀ a ∈ ([] : List A), key a = current := by simp
  obtain ⟨hgroups, hpairwise⟩ := stage_inOrder h hempty hcurrent
  refine ⟨.of_flatMap ?_ (fun g hg => (hgroups g hg).2) (fun g => ne_nil_of_mem_stage)
    (flatMap_stage current [] chunks), hpairwise⟩
  exact List.pairwise_map.mpr (hpairwise.imp fun hlt => hlt.ne)

/-- The items at which the same keys stand are told by the items of each key. -/
theorem eq_of_filter_eq {items items' : List A} (hkeys : items.map key = items'.map key)
    (hfilter : ∀ k, (items.filter fun a => key a = k) = items'.filter fun a => key a = k) :
    items = items' := by
  induction items generalizing items' with
  | nil => simpa using hkeys.symm
  | cons a items ih =>
    cases items' with
    | nil => cases hkeys
    | cons a' items' =>
      obtain ⟨hkey, hrest⟩ := List.cons.inj hkeys
      have hhead := hfilter (key a)
      simp only [List.filter_cons, decide_true, if_true, ← hkey, List.cons.injEq] at hhead
      obtain ⟨rfl, -⟩ := hhead
      refine congrArg (a :: ·) (ih hrest fun k => ?_)
      have htail := hfilter k
      rw [List.filter_cons, List.filter_cons] at htail
      split at htail
      · exact (List.cons.inj htail).2
      · exact htail

end PDXearch.Lib
