import PDXearch.Lib.Client
import PDXearch.Lib.KSmallest
import Mathlib.Algebra.BigOperators.Fin
import Mathlib.Algebra.BigOperators.Group.Finset.Piecewise

/-!
# Clients of a shared bounded queue

The shared object is a max-queue that keeps the `k` smallest entries offered to it. A client may
look at the greatest key in the queue and may offer entries; between the two the queue may have
changed, so what a client decides from a look is decided from a key that is at least the present
one.

`Accounts Ok Post pend t c` is a program logic for one client, over a level `t` of the queue that
never rises and that no answer to a look is below: the client `c` answers for the entries `pend`
while the level is at most `t`; it offers some of them, and when it returns `a` with `rest` not
offered, `Post a rest t` holds for every later level `t`. `Ok x u` is what the client assumes of
the answer `u` to the look `x`. There are two rules for pools: `Pool.run_accounted`, where the level
is the greatest key, and `Pool.run_levelled`, for any level; under every schedule the entries of all
clients are those offered and those still answered for.

`Notes l c` says which points the client `c` passes; `Pool.run_notes` is the rule for pools.
-/

namespace PDXearch.Lib

open PriorityQueue

/-- Calls on a shared queue. `note` leaves the queue as it is and marks a point of the caller. -/
inductive QueueOp (X C N : Type) : Type
  | look (x : X)
  | offer (cs : List C)
  | note (n : N)

/-- A look is answered by the greatest key. -/
@[reducible] def QueueOp.Res (D : Type) {X C N : Type} : QueueOp X C N → Type
  | look _ => D
  | offer _ => Unit
  | note _ => Unit

abbrev QueueClient (X C N D α : Type) : Type := Client (QueueOp X C N) (QueueOp.Res D) α

variable {H X C N D α β : Type}

/-- The entries offered in a run of one client. -/
def offers (tr : List (Client.Event (QueueOp X C N) (QueueOp.Res D))) : List C :=
  tr.flatMap fun e => match e with
    | ⟨.offer cs, _⟩ => cs
    | _ => []

theorem offers_cons_offer (cs : List C) (r : Unit)
    (tr : List (Client.Event (QueueOp X C N) (QueueOp.Res D))) :
    offers (⟨.offer cs, r⟩ :: tr) = cs ++ offers tr := rfl

@[simp] theorem offers_append (tr tr' : List (Client.Event (QueueOp X C N) (QueueOp.Res D))) :
    offers (tr ++ tr') = offers tr ++ offers tr' :=
  List.flatMap_append

/-! ## Notes -/

variable {X' N' : Type}

/-- The notes made in a trace. -/
def notes (tr : List (Client.Event (QueueOp X C N) (QueueOp.Res D))) : List N :=
  tr.flatMap fun e => match e with
    | ⟨.note n, _⟩ => [n]
    | _ => []

@[simp] theorem notes_append (tr tr' : List (Client.Event (QueueOp X C N) (QueueOp.Res D))) :
    notes (tr ++ tr') = notes tr ++ notes tr' :=
  List.flatMap_append

/-- Whatever the answers, the client makes the notes `l` in this order. -/
inductive Notes : List N → QueueClient X C N D α → Prop
  | done {a : α} : Notes [] (.done a)
  | look {l : List N} {x : X} {next : D → QueueClient X C N D α} (h : ∀ t, Notes l (next t)) :
      Notes l (.call (.look x) next)
  | offer {l : List N} {cs : List C} {next : Unit → QueueClient X C N D α}
      (h : Notes l (next ())) : Notes l (.call (.offer cs) next)
  | note {l : List N} {n : N} {next : Unit → QueueClient X C N D α} (h : Notes l (next ())) :
      Notes (n :: l) (.call (.note n) next)

namespace Notes

theorem bind {l l' : List N} {c : QueueClient X C N D α} {f : α → QueueClient X C N D β}
    (h : Notes l c) (hf : ∀ a, Notes l' (f a)) : Notes (l ++ l') (c >>= f) := by
  induction h with
  | done => exact hf _
  | look _ ih => exact .look ih
  | offer _ ih => exact .offer ih
  | note _ ih => exact .note ih

theorem bind_done {l : List N} {c : QueueClient X C N D α} (h : Notes l c)
    {f : α → QueueClient X C N D β} (hf : ∀ a, Notes [] (f a)) : Notes l (c >>= f) :=
  List.append_nil l ▸ h.bind hf

/-- The notes of a run with an object. -/
theorem notes_exec {σ : Type} {l : List N} {c : QueueClient X C N D α} (h : Notes l c)
    (obj : (op : QueueOp X C N) → σ → QueueOp.Res D op × σ) (s : σ) :
    notes (c.exec obj s).1 = l := by
  induction h generalizing s with
  | done => rfl
  | look _ ih => exact ih _ _
  | offer _ ih => exact ih _
  | note _ ih => exact congrArg _ (ih _)

/-- A program that looks at the queue only makes no note. -/
theorem of_looks {Y R : Type} {view : Y → D → R} {label : Y → X} (p : Client Y (fun _ => R) α) :
    Notes [] (p.interp fun y => (Client.call (.look (label y)) fun u => .done (view y u) :
      QueueClient X C N D R)) := by
  induction p with
  | done a => exact .done
  | call y next ih => exact .look fun u => ih (view y u)

end Notes

/-- The client with other names for its looks and notes. -/
def QueueClient.relabel (f : X → X') (h : N → N') :
    QueueClient X C N D α → QueueClient X' C N' D α
  | .done a => .done a
  | .call (.look x) next => .call (.look (f x)) fun t => relabel f h (next t)
  | .call (.offer cs) next => .call (.offer cs) fun r => relabel f h (next r)
  | .call (.note n) next => .call (.note (h n)) fun r => relabel f h (next r)

theorem Notes.relabel {l : List N} {c : QueueClient X C N D α} (hc : Notes l c) (f : X → X')
    (h : N → N') : Notes (l.map h) (QueueClient.relabel f h c) := by
  induction hc with
  | done => exact .done
  | look _ ih => exact .look ih
  | offer _ ih => exact .offer ih
  | note _ ih => exact .note ih

/-! ## Accounts -/

variable [LinearOrder D]

/-- See the module's comment. -/
inductive Accounts (Ok : X → D → Prop) (Post : α → Multiset C → D → Prop) :
    Multiset C → D → QueueClient X C N D α → Prop
  | done {pend : Multiset C} {t : D} {a : α} (h : Post a pend t) : Accounts Ok Post pend t (.done a)
  | look {pend : Multiset C} {t : D} {x : X} {next : D → QueueClient X C N D α}
      (h : ∀ t' ≤ t, ∀ u, t' ≤ u → Ok x u → Accounts Ok Post pend t' (next u)) :
      Accounts Ok Post pend t (.call (.look x) next)
  | offer {pend rest : Multiset C} {t : D} {cs : List C} {next : Unit → QueueClient X C N D α}
      (he : pend = cs + rest) (h : ∀ t' ≤ t, Accounts Ok Post rest t' (next ())) :
      Accounts Ok Post pend t (.call (.offer cs) next)
  | note {pend : Multiset C} {t : D} {n : N} {next : Unit → QueueClient X C N D α}
      (h : Accounts Ok Post pend t (next ())) : Accounts Ok Post pend t (.call (.note n) next)

namespace Accounts

variable {Ok : X → D → Prop} {Post : α → Multiset C → D → Prop}

/-- A postcondition survives a decrease of the level. -/
def Stable (Post : α → Multiset C → D → Prop) : Prop :=
  ∀ a pend t t', t' ≤ t → Post a pend t → Post a pend t'

theorem mono (hPost : Stable Post) {pend : Multiset C} {t t' : D} {c : QueueClient X C N D α}
    (h : Accounts Ok Post pend t c) (ht : t' ≤ t) : Accounts Ok Post pend t' c := by
  induction h with
  | done h => exact .done (hPost _ _ _ _ ht h)
  | look h _ => exact .look fun t'' ht'' => h t'' (ht''.trans ht)
  | offer he h _ => exact .offer he fun t'' ht'' => h t'' (ht''.trans ht)
  | note _ ih => exact .note (ih ht)

theorem bind {Post' : β → Multiset C → D → Prop} {pend : Multiset C} {t : D}
    {c : QueueClient X C N D α} {f : α → QueueClient X C N D β} (h : Accounts Ok Post pend t c)
    (hf : ∀ a pend' t', t' ≤ t → Post a pend' t' → Accounts Ok Post' pend' t' (f a)) :
    Accounts Ok Post' pend t (c >>= f) := by
  induction h with
  | done h => exact hf _ _ _ le_rfl h
  | look _ ih =>
    refine .look fun t' ht' u hu hok => ih t' ht' u hu hok fun a p t'' ht'' => ?_
    exact hf a p t'' (ht''.trans ht')
  | offer he _ ih =>
    exact .offer he fun t' ht' => ih t' ht' fun a p t'' ht'' => hf a p t'' (ht''.trans ht')
  | note _ ih => exact .note (ih hf)

/-- Entries that others answer for do not matter. -/
theorem frame {pend : Multiset C} {t : D} {c : QueueClient X C N D α} (rest : Multiset C)
    (h : Accounts Ok Post pend t c) :
    Accounts Ok (fun a pend t => ∃ own, pend = own + rest ∧ Post a own t) (pend + rest) t c := by
  induction h with
  | done h => exact .done ⟨_, rfl, h⟩
  | look _ ih => exact .look ih
  | offer he _ ih => exact .offer (by rw [he, add_assoc]) ih
  | note _ ih => exact .note ih

/-- Fewer answers may be excluded. -/
theorem imp {Ok' : X → D → Prop} (hOk : ∀ x u, Ok' x u → Ok x u) {pend : Multiset C} {t : D}
    {c : QueueClient X C N D α} (h : Accounts Ok Post pend t c) : Accounts Ok' Post pend t c := by
  induction h with
  | done h => exact .done h
  | look _ ih => exact .look fun t' ht' u hu hok => ih t' ht' u hu (hOk _ _ hok)
  | offer he _ ih => exact .offer he ih
  | note _ ih => exact .note ih

/-- The rule for a program that looks at the queue only. Each of its calls `x` is one look, whose
answer `t` it sees as `view x t`; no answer was below the level of its time, and the level has not
risen since. -/
theorem of_looks {Y R : Type} {view : Y → D → R} {label : Y → X}
    {p : Client Y (fun _ => R) α} {f : α → QueueClient X C N D β}
    {Post' : β → Multiset C → D → Prop} {pend : Multiset C} {t : D}
    (h : ∀ a tr t', t' ≤ t → p.Runs tr a →
      (∀ e ∈ tr, ∃ u, t' ≤ u ∧ Ok (label e.1) u ∧ e.2 = view e.1 u) →
        Accounts Ok Post' pend t' (f a)) :
    Accounts Ok Post' pend t
      (p.interp (fun y => Client.call (.look (label y)) fun u => .done (view y u)) >>= f) := by
  induction p generalizing t with
  | done a => exact h a [] t le_rfl (.done a) (by simp)
  | call y next ih =>
    refine .look fun l hl u hu hok => ih (view y u) fun a tr t' ht' hruns hall => ?_
    refine h a (⟨y, view y u⟩ :: tr) t' (ht'.trans hl) (.call hruns) ?_
    intro e he
    rcases List.mem_cons.mp he with rfl | he
    · exact ⟨u, ht'.trans hu, hok, rfl⟩
    · exact hall e he

/-- If no answer is excluded, an accounted client has a run in which the level stays what it is. -/
theorem exists_run {pend : Multiset C} {t : D} {c : QueueClient X C N D α} (hok : ∀ x, Ok x t)
    (h : Accounts Ok Post pend t c) :
    ∃ tr a rest, c.Runs tr a ∧ pend = offers tr + rest ∧ Post a rest t := by
  induction h with
  | done h => exact ⟨[], _, _, .done _, (zero_add _).symm, h⟩
  | look _ ih =>
    obtain ⟨tr, a, rest, hrun, hpend, hpost⟩ := ih _ le_rfl _ le_rfl (hok _) hok
    exact ⟨_, a, rest, .call hrun, hpend, hpost⟩
  | offer he _ ih =>
    obtain ⟨tr, a, rest, hrun, hpend, hpost⟩ := ih _ le_rfl hok
    refine ⟨_, a, rest, .call hrun, ?_, hpost⟩
    rw [he, hpend, offers_cons_offer, ← Multiset.coe_add, add_assoc]
  | note _ ih =>
    obtain ⟨tr, a, rest, hrun, hpend, hpost⟩ := ih hok
    exact ⟨_, a, rest, .call hrun, hpend, hpost⟩

theorem relabel {Ok : X → D → Prop} {Ok' : X' → D → Prop}
    {Post : α → Multiset C → D → Prop} {pend : Multiset C} {t : D} {c : QueueClient X C N D α}
    {f : X → X'} (hOk : ∀ x t, Ok' (f x) t → Ok x t) (h : N → N')
    (hc : Accounts Ok Post pend t c) : Accounts Ok' Post pend t (QueueClient.relabel f h c) := by
  induction hc with
  | done hPost => exact .done hPost
  | look _ ih => exact .look fun t' ht' u hu hok => ih t' ht' u hu (hOk _ _ hok)
  | offer he _ ih => exact .offer he ih
  | note _ ih => exact .note ih

end Accounts

omit [LinearOrder D] in
/-- A program that looks at the queue only offers nothing. -/
theorem runs_looks {Y R : Type} {view : Y → D → R} {label : Y → X} {p : Client Y (fun _ => R) α}
    {tr : List (Client.Event (QueueOp X C N) (QueueOp.Res D))} {a : α}
    (h : (p.interp fun y => (Client.call (.look (label y)) fun u => .done (view y u) :
      QueueClient X C N D R)).Runs tr a) :
    offers tr = [] ∧ ∃ tr', p.Runs tr' a := by
  induction p generalizing tr with
  | done b =>
    obtain ⟨rfl, rfl⟩ := Client.runs_done_iff.mp h
    exact ⟨rfl, [], .done _⟩
  | call y next ih =>
    obtain ⟨u, tr', rfl, hrun⟩ := Client.runs_call_iff.mp h
    obtain ⟨hoffers, tr'', hruns⟩ := ih (view y u) hrun
    exact ⟨hoffers, ⟨y, view y u⟩ :: tr'', .call hruns⟩

/-! ## Pools -/

variable [OrderTop D] {key : C → D} [PriorityQueue H key]

/-- The queue as an object. -/
def queueObj (k : Nat) : (op : QueueOp X C N) → H → QueueOp.Res D op × H
  | .look _, h => (topKey h, h)
  | .offer cs, h => ((), offerAll k cs h)
  | .note _, h => ((), h)

@[simp] theorem queueObj_look (k : Nat) (x : X) (h : H) :
    queueObj (C := C) (N := N) k (.look x) h = (topKey h, h) := rfl

@[simp] theorem queueObj_offer (k : Nat) (cs : List C) (h : H) :
    queueObj (X := X) (N := N) k (.offer cs) h = ((), offerAll k cs h) := rfl

@[simp] theorem queueObj_note (k : Nat) (n : N) (h : H) :
    queueObj (X := X) (C := C) k (.note n) h = ((), h) := rfl

/-- The entries offered in a trace. -/
def offered {ι : Type} (tr : List (ι × Client.Event (QueueOp X C N) (QueueOp.Res D))) : List C :=
  tr.flatMap fun e => match e with
    | (_, ⟨.offer cs, _⟩) => cs
    | _ => []

/-- The looks of client `i` in the trace were answered as it assumes. -/
def Answers {ι : Type} (Ok : ι → X → D → Prop)
    (tr : List (ι × Client.Event (QueueOp X C N) (QueueOp.Res D))) : Prop :=
  ∀ i x t, (i, ⟨.look x, t⟩) ∈ tr → Ok i x t

namespace Pool

open Client

section Offered

variable {ι : Type} [DecidableEq ι] {k : Nat} {p q : Pool H ι (QueueOp X C N) (QueueOp.Res D) α}
  {tr : List (ι × Event (QueueOp X C N) (QueueOp.Res D))}

omit [LinearOrder D] [OrderTop D] [DecidableEq ι] in
theorem offered_append (tr tr' : List (ι × Event (QueueOp X C N) (QueueOp.Res D))) :
    offered (tr ++ tr') = offered tr ++ offered tr' :=
  List.flatMap_append

/-- A run leaves in the queue what the offers in it make of it. -/
theorem run_shared (hr : Run (queueObj k) p tr q) : q.shared = offerAll k (offered tr) p.shared := by
  induction hr with
  | refl => rfl
  | @snoc q r tr e _ hs ih =>
    rw [offered_append, offerAll_append, ← ih]
    obtain ⟨hp⟩ := hs
    rename_i i op next
    cases op with
    | look x => rfl
    | offer cs => simp [offered]
    | note n => rfl

/-- What is offered in a run is offered in a run of some client of its own. -/
theorem exists_runs_offers (hr : Run (queueObj k) p tr q) {x : C} (hx : x ∈ offered tr) :
    ∃ i tr' a, (p.task i).Runs tr' a ∧ x ∈ offers tr' := by
  obtain ⟨⟨i, op, r⟩, he, hmem⟩ := List.mem_flatMap.mp hx
  cases op with
  | look y => exact absurd hmem List.not_mem_nil
  | note n => exact absurd hmem List.not_mem_nil
  | offer cs =>
    refine ⟨i, _, _, hr.runs_task i (runs_exec (queueObj k) (q.task i) q.shared), ?_⟩
    rw [offers_append]
    refine List.mem_append_left _ (List.mem_flatMap.mpr ⟨⟨.offer cs, r⟩, ?_, hmem⟩)
    exact List.mem_filterMap.mpr ⟨_, he, if_pos rfl⟩

end Offered

variable {ι : Type} [DecidableEq ι] [Fintype ι] {k : Nat} {s : C}
  {Ok : ι → X → D → Prop} {Post : ι → α → Multiset C → D → Prop}

/-- What holds of a pool whose clients answer for the entries `pend`, after `A` was offered. -/
structure Accounted (k : Nat) (s : C) (Ok : ι → X → D → Prop)
    (Post : ι → α → Multiset C → D → Prop) (A : Multiset C) (pend : ι → Multiset C)
    (p : Pool H ι (QueueOp X C N) (QueueOp.Res D) α) : Prop where
  primed : Primed k s A p.shared
  lt_top : ∀ i, ∀ x ∈ pend i, key x < ⊤
  accounts : ∀ i, Accounts (Ok i) (Post i) (pend i) (topKey p.shared) (p.task i)

omit [DecidableEq ι] [Fintype ι] [LinearOrder D] [OrderTop D] in
/-- The lists of finitely many clients, one behind the other. -/
theorem sum_coe_finRange {B : Type} {n : Nat} (l : Fin n → List B) :
    ∑ i, (l i : Multiset B) = ((List.finRange n).flatMap l : List B) := by
  rw [Fin.sum_univ_def]
  induction List.finRange n with
  | nil => rfl
  | cons i is ih => rw [List.map_cons, List.sum_cons, List.flatMap_cons, ih, Multiset.coe_add]

theorem sum_update (pend : ι → Multiset C) (i : ι) (cs rest : Multiset C)
    (h : pend i = cs + rest) :
    ∑ j, pend j = cs + ∑ j, Function.update pend i rest j := by
  rw [Finset.sum_update_of_mem (Finset.mem_univ i),
    Finset.sum_eq_add_sum_sdiff_singleton_of_mem (Finset.mem_univ i), h, add_assoc]

omit [Fintype ι] [OrderTop D] [PriorityQueue H key] in
/-- Client `i` goes on, and the level of the other clients' accounts may drop. -/
theorem accounts_update (hPost : ∀ i, Accounts.Stable (Post i)) {pend : ι → Multiset C}
    {task : ι → Client (QueueOp X C N) (QueueOp.Res D) α} {t t' : D}
    (h : ∀ i, Accounts (Ok i) (Post i) (pend i) t (task i)) (ht : t' ≤ t) {i : ι}
    {own : Client (QueueOp X C N) (QueueOp.Res D) α} {rest : Multiset C}
    (hown : Accounts (Ok i) (Post i) rest t' own) (j : ι) :
    Accounts (Ok j) (Post j) (Function.update pend i rest j) t' (Function.update task i own j) := by
  by_cases hj : j = i
  · subst j
    simpa using hown
  · rw [Function.update_of_ne hj, Function.update_of_ne hj]
    exact (h j).mono (hPost j) ht

/-- One step: the entries a client offers are no longer its own, and nobody's account is spoilt
by the offer, since it does not raise the greatest key. -/
theorem step_accounted (hPost : ∀ i, Accounts.Stable (Post i)) {A : Multiset C}
    {pend : ι → Multiset C} {p q : Pool H ι (QueueOp X C N) (QueueOp.Res D) α}
    {e : ι × Event (QueueOp X C N) (QueueOp.Res D)} (h : Accounted k s Ok Post A pend p)
    (hs : Step (queueObj k) p e q) (hok : Answers Ok [e]) :
    topKey q.shared ≤ topKey p.shared ∧ ∃ pend', Accounted k s Ok Post (offered [e] + A) pend' q ∧
      ∑ i, pend i = offered [e] + ∑ i, pend' i := by
  obtain ⟨hp⟩ := hs
  rename_i i op next
  have hi := hp ▸ h.accounts i
  cases op with
  | look x =>
    cases hi with
    | look hi =>
      refine ⟨le_rfl, pend, ⟨by simpa [offered] using h.primed, h.lt_top, ?_⟩, by simp [offered]⟩
      have hown := hi _ le_rfl _ le_rfl (hok i x _ (List.mem_singleton.mpr rfl))
      simpa using accounts_update hPost h.accounts le_rfl hown
  | note n =>
    cases hi with
    | note hi =>
      refine ⟨le_rfl, pend, ⟨by simpa [offered] using h.primed, h.lt_top, ?_⟩, by simp [offered]⟩
      simpa using accounts_update hPost h.accounts le_rfl hi
  | offer cs =>
    cases hi with
    | @offer _ rest _ _ _ hpi hi =>
      have hlt : ∀ c ∈ cs, key c < ⊤ := fun c hc =>
        h.lt_top i c (hpi ▸ Multiset.mem_add.mpr (Or.inl hc))
      obtain ⟨hprimed, htop⟩ := h.primed.offerAll hlt
      refine ⟨htop, Function.update pend i rest,
        ⟨by simpa [offered] using hprimed, ?_, accounts_update hPost h.accounts htop (hi _ htop)⟩, ?_⟩
      · intro j x hx
        by_cases hj : j = i
        · subst hj
          rw [Function.update_self] at hx
          exact h.lt_top j x (hpi ▸ Multiset.mem_add.mpr (Or.inr hx))
        · rw [Function.update_of_ne hj] at hx
          exact h.lt_top j x hx
      · simpa [offered] using sum_update pend i cs rest hpi

theorem run_accounted (hPost : ∀ i, Accounts.Stable (Post i)) {A : Multiset C}
    {pend : ι → Multiset C} {p q : Pool H ι (QueueOp X C N) (QueueOp.Res D) α}
    {tr : List (ι × Event (QueueOp X C N) (QueueOp.Res D))} (h : Accounted k s Ok Post A pend p)
    (hr : Run (queueObj k) p tr q) (hok : Answers Ok tr) :
    topKey q.shared ≤ topKey p.shared ∧ ∃ pend', Accounted k s Ok Post (offered tr + A) pend' q ∧
      ∑ i, pend i = offered tr + ∑ i, pend' i := by
  induction hr with
  | refl => exact ⟨le_rfl, pend, by simpa [offered] using h, by simp [offered]⟩
  | @snoc q r tr e hr hs ih =>
    obtain ⟨htop, pend', hq, hsum⟩ := ih fun i x t hm => hok i x t (List.mem_append_left _ hm)
    obtain ⟨htop', pend'', hacc, hsum'⟩ := step_accounted hPost hq hs
      fun i x t hm => hok i x t (List.mem_append_right _ hm)
    have happ : (offered (tr ++ [e]) : Multiset C) = offered tr + offered [e] := by
      rw [offered_append, ← Multiset.coe_add]
    refine ⟨htop'.trans htop, pend'', ?_, ?_⟩
    · rw [happ, add_comm (offered tr : Multiset C), add_assoc]
      exact hacc
    · rw [happ, hsum, hsum', add_assoc]

omit [Fintype ι] in
/-- One step, for any level of the queue that no answer is below and that no offer raises. -/
theorem step_levelled {level : H → D} (hlook : ∀ h, level h ≤ topKey h)
    (hoffer : ∀ cs h, level (offerAll k cs h) ≤ level h) (hPost : ∀ i, Accounts.Stable (Post i))
    {pend : ι → Multiset C} {p q : Pool H ι (QueueOp X C N) (QueueOp.Res D) α}
    {e : ι × Event (QueueOp X C N) (QueueOp.Res D)}
    (h : ∀ i, Accounts (Ok i) (Post i) (pend i) (level p.shared) (p.task i))
    (hs : Step (queueObj k) p e q) (hok : Answers Ok [e]) :
    ∃ pend' : ι → Multiset C,
      (∀ i, Accounts (Ok i) (Post i) (pend' i) (level q.shared) (q.task i)) ∧
        ∀ i, pend i ≤ offered [e] + pend' i := by
  obtain ⟨hp⟩ := hs
  rename_i i op next
  have hi := hp ▸ h i
  cases op with
  | look x =>
    cases hi with
    | look hi =>
      refine ⟨pend, ?_, fun j => by simp [offered]⟩
      have hown := hi _ le_rfl _ (hlook p.shared) (hok i x _ (List.mem_singleton.mpr rfl))
      simpa using accounts_update hPost h le_rfl hown
  | note n =>
    cases hi with
    | note hi =>
      refine ⟨pend, ?_, fun j => by simp [offered]⟩
      simpa using accounts_update hPost h le_rfl hi
  | offer cs =>
    cases hi with
    | @offer _ rest _ _ _ hpi hi =>
      have hlevel := hoffer cs p.shared
      refine ⟨Function.update pend i rest, accounts_update hPost h hlevel (hi _ hlevel), fun j => ?_⟩
      have hoffered : (offered [(i, (⟨.offer cs, ()⟩ : Event (QueueOp X C N) (QueueOp.Res D)))] :
          Multiset C) = cs := by simp [offered]
      rw [queueObj_offer, hoffered]
      by_cases hj : j = i
      · subst hj
        rw [Function.update_self, hpi]
      · rw [Function.update_of_ne hj]
        exact Multiset.le_add_left _ _

omit [Fintype ι] in
theorem run_levelled {level : H → D} (hlook : ∀ h, level h ≤ topKey h)
    (hoffer : ∀ cs h, level (offerAll k cs h) ≤ level h) (hPost : ∀ i, Accounts.Stable (Post i))
    {pend : ι → Multiset C} {p q : Pool H ι (QueueOp X C N) (QueueOp.Res D) α}
    {tr : List (ι × Event (QueueOp X C N) (QueueOp.Res D))}
    (h : ∀ i, Accounts (Ok i) (Post i) (pend i) (level p.shared) (p.task i))
    (hr : Run (queueObj k) p tr q) (hok : Answers Ok tr) :
    ∃ pend' : ι → Multiset C,
      (∀ i, Accounts (Ok i) (Post i) (pend' i) (level q.shared) (q.task i)) ∧
        ∀ i, pend i ≤ offered tr + pend' i := by
  induction hr with
  | refl => exact ⟨pend, h, fun i => Multiset.le_add_left _ _⟩
  | snoc hr hs ih =>
    obtain ⟨pend', hq, hle⟩ := ih fun i x t hm => hok i x t (List.mem_append_left _ hm)
    obtain ⟨pend'', hacc, hle'⟩ := step_levelled hlook hoffer hPost hq hs
      fun i x t hm => hok i x t (List.mem_append_right _ hm)
    refine ⟨pend'', hacc, fun i => (hle i).trans ?_⟩
    rw [offered_append, ← Multiset.coe_add, add_assoc]
    exact add_le_add le_rfl (hle' i)

/-- One step makes a note that its client had still to make. -/
theorem step_notes {p q : Pool H ι (QueueOp X C N) (QueueOp.Res D) α}
    {e : ι × Event (QueueOp X C N) (QueueOp.Res D)} {l : ι → List N}
    (h : ∀ i, Notes (l i) (p.task i)) (hs : Step (queueObj k) p e q) :
    ∃ l' : ι → List N, (∀ i, Notes (l' i) (q.task i)) ∧
      ∑ i, (l i : Multiset N) = notes [e.2] + ∑ i, (l' i : Multiset N) := by
  obtain ⟨hp⟩ := hs
  rename_i i op next
  have hi := hp ▸ h i
  have keep : ∀ (own : Client (QueueOp X C N) (QueueOp.Res D) α) (rest : List N), Notes rest own →
      ∀ j, Notes (Function.update l i rest j) (Function.update p.task i own j) := by
    intro own rest hown j
    by_cases hj : j = i
    · subst j
      simpa using hown
    · rw [Function.update_of_ne hj, Function.update_of_ne hj]
      exact h j
  generalize hli : l i = li at hi
  have hsame : Function.update l i li = l := hli ▸ Function.update_eq_self i l
  cases op with
  | look x =>
    cases hi with
    | look hi => exact ⟨l, hsame ▸ keep _ _ (hi _), by simp [notes]⟩
  | offer cs =>
    cases hi with
    | offer hi => exact ⟨l, hsame ▸ keep _ _ hi, by simp [notes]⟩
  | note n =>
    cases hi with
    | @note rest _ _ hi =>
      refine ⟨Function.update l i rest, keep _ rest hi, ?_⟩
      have hsum := sum_update (fun j => (l j : Multiset N)) i {n} (rest : Multiset N)
        (by rw [hli]; rfl)
      have hupdate : (fun j => ((Function.update l i rest j : List N) : Multiset N)) =
          Function.update (fun j => (l j : Multiset N)) i (rest : Multiset N) := by
        funext j
        exact Function.apply_update (fun _ (l : List N) => (l : Multiset N)) l i rest j
      rw [hupdate]
      exact hsum

/-- The notes of a run and those still to be made are the notes of the clients. -/
theorem run_notes {p q : Pool H ι (QueueOp X C N) (QueueOp.Res D) α}
    {tr : List (ι × Event (QueueOp X C N) (QueueOp.Res D))} {l : ι → List N}
    (h : ∀ i, Notes (l i) (p.task i)) (hr : Run (queueObj k) p tr q) :
    ∃ l' : ι → List N, (∀ i, Notes (l' i) (q.task i)) ∧
      ∑ i, (l i : Multiset N) = notes (tr.map Prod.snd) + ∑ i, (l' i : Multiset N) := by
  induction hr with
  | refl => exact ⟨l, h, by simp [notes]⟩
  | snoc hr hs ih =>
    obtain ⟨l', hq, hsum⟩ := ih
    obtain ⟨l'', hr', hsum'⟩ := step_notes hq hs
    refine ⟨l'', hr', ?_⟩
    rw [hsum, hsum', List.map_append, notes_append, ← Multiset.coe_add, add_assoc]
    rfl

omit [LinearOrder D] [OrderTop D] [DecidableEq ι] [Fintype ι] in
theorem notes_eq_nil_of_finished {p : Pool H ι (QueueOp X C N) (QueueOp.Res D) α} {l : ι → List N}
    (h : ∀ i, Notes (l i) (p.task i)) (hfin : p.Finished) (i : ι) : l i = [] := by
  obtain ⟨a, ha⟩ := hfin i
  have hi := ha ▸ h i
  generalize l i = li at hi
  cases hi with
  | done => rfl

omit [DecidableEq ι] in
/-- When all clients have returned and none of them still answers for an entry below the greatest
key, the queue holds the smallest of all entries that were answered for. -/
theorem Accounted.settle {A : Multiset C} {pend : ι → Multiset C}
    {p : Pool H ι (QueueOp X C N) (QueueOp.Res D) α} (h : Accounted k s Ok Post A pend p)
    (hfin : p.Finished) (hlow : ∀ i a B t, Post i a B t → ∀ x ∈ B, t ≤ key x) :
    Primed k s (∑ i, pend i + A) p.shared := by
  refine h.primed.settle ?_ ?_
  · intro x hx
    obtain ⟨i, -, hx⟩ := Multiset.mem_sum.mp hx
    obtain ⟨a, ha⟩ := hfin i
    have hi := ha ▸ h.accounts i
    cases hi with
    | done hpost => exact hlow i a _ _ hpost x hx
  · intro x hx
    obtain ⟨i, -, hx⟩ := Multiset.mem_sum.mp hx
    exact h.lt_top i x hx

omit [DecidableEq ι] [Fintype ι] in
/-- What holds when a client has returned. -/
theorem Accounted.post_of_finished {A : Multiset C} {pend : ι → Multiset C}
    {p : Pool H ι (QueueOp X C N) (QueueOp.Res D) α} (h : Accounted k s Ok Post A pend p)
    (hfin : p.Finished) (i : ι) : ∃ a, Post i a (pend i) (topKey p.shared) := by
  obtain ⟨a, ha⟩ := hfin i
  have hi := ha ▸ h.accounts i
  cases hi with
  | done hpost => exact ⟨a, hpost⟩

end Pool

end PDXearch.Lib
